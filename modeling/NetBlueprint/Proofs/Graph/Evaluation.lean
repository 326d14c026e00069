import NetBlueprint.Proofs.Graph.Dependencies
import NetBlueprint.Proofs.Outcome
import NetBlueprint.Proofs.Table

/-!
Contract: every evaluation of a well-formed network whose conditions can be read comes to an end,
with values or with a foreseen fault.

`Behaves` says of a computation that it comes back to the path it started on, remembers the values
that it was to compute, each after those it depends on, and fails only as foreseen. It holds of
values and of applied layers together, by induction on the bound of the depth: between two layers
of a path stand at most as many modules as there are layers, since a module groups earlier layers.

Owns: the bound on the depth, and what an evaluation leaves behind.
Does not own: the numbers that layers compute.
-/

namespace NetBlueprint

namespace Evaluation

/-- The layers whose values are remembered, the last one in front. -/
def known (state : EvalState) : List LayerId :=
  state.cache.map Prod.fst

/-- An evaluation that stands on a path: only weights have changed, and every remembered layer
stands behind those it depends on. -/
structure Standing (network : Network) (feed : Feed) (active : List LayerId) (state : EvalState) :
    Prop where
  active : state.active = active
  layers : state.network.unweighted = network.unweighted
  grounded : Grounded (network.Depends feed) (known state)

structure Leaves {Result : Type} (network : Network) (feed : Feed) (active : List LayerId)
    (Met : LayerId → Prop) (before : EvalState) (outcome : Except GraphError Result)
    (after : EvalState) : Prop where
  standing : Standing network feed active after
  keeps : known before ⊆ known after
  met : ∀ value, outcome = .ok value → ∀ id, Met id → id ∈ known after
  foreseen : ∀ fault, outcome = .error fault → network.Foreseen feed fault

def Behaves {Result : Type} (network : Network) (feed : Feed) (active : List LayerId)
    (Met : LayerId → Prop) (computation : EvalM Result) : Prop :=
  ∀ before, Standing network feed active before → ∀ outcome after,
    computation.run before = (outcome, after) → Leaves network feed active Met before outcome after

section Combinators

variable {Result Next : Type} {network : Network} {feed : Feed} {active : List LayerId}
  {Met First Second : LayerId → Prop}

/-- A computation that comes to a fault has no value to remember. -/
theorem Leaves.failed {before after : EvalState} {fault : GraphError}
    (standing : Standing network feed active after) (keeps : known before ⊆ known after)
    (foreseen : network.Foreseen feed fault) :
    Leaves network feed active Met before (.error fault : Except GraphError Result) after := by
  refine ⟨standing, keeps, nofun, ?_⟩
  rintro _ ⟨⟩
  exact foreseen

theorem Leaves.succeeded {before after : EvalState} {value : Result}
    (standing : Standing network feed active after) (keeps : known before ⊆ known after)
    (met : ∀ id, Met id → id ∈ known after) :
    Leaves network feed active Met before (.ok value) after :=
  ⟨standing, keeps, fun _ _ => met, nofun⟩

/-- What is met may be asked less of. -/
theorem Behaves.imp {computation : EvalM Result}
    (behaves : Behaves network feed active Met computation) (weaker : ∀ id, First id → Met id) :
    Behaves network feed active First computation := by
  intro before standing outcome after ended
  have leaves := behaves before standing outcome after ended
  exact { leaves with met := fun value same id first => leaves.met value same id (weaker id first) }

theorem behaves_pure (value : Result) (nothing : ∀ id, ¬ Met id) :
    Behaves network feed active Met (pure value) := by
  intro before standing outcome after ended
  cases ended
  exact .succeeded standing (List.Subset.refl _) fun id met => absurd met (nothing id)

theorem behaves_throw {fault : GraphError} (foreseen : network.Foreseen feed fault) :
    Behaves network feed active Met (throw fault : EvalM Result) := by
  intro before standing outcome after ended
  cases ended
  exact .failed standing (List.Subset.refl _) foreseen

theorem behaves_bind {computation : EvalM Result} {next : Result → EvalM Next}
    (first : Behaves network feed active First computation)
    (second : ∀ value, Behaves network feed active Second (next value)) :
    Behaves network feed active (fun id => First id ∨ Second id) (computation >>= next) := by
  intro before standing outcome after ended
  rw [Outcome.run_bind] at ended
  rcases stopped : computation.run before with ⟨middle, between⟩
  have leaves := first before standing middle between stopped
  rw [stopped] at ended
  cases middle with
  | error fault =>
      cases ended
      exact .failed leaves.standing leaves.keeps (leaves.foreseen fault rfl)
  | ok value =>
      have later := second value between leaves.standing outcome after ended
      refine ⟨later.standing, List.Subset.trans leaves.keeps later.keeps, ?_, later.foreseen⟩
      rintro result same id (firstMet | secondMet)
      · exact later.keeps (leaves.met value rfl id firstMet)
      · exact later.met result same id secondMet

/-- The state that is read stands on the path. -/
theorem behaves_get_bind {next : EvalState → EvalM Next}
    (each : ∀ state, Standing network feed active state →
      Behaves network feed active Met (next state)) :
    Behaves network feed active Met (get >>= next) := by
  intro before standing outcome after ended
  exact each before standing before standing outcome after ended

theorem run_get (state : EvalState) :
    (get : EvalM EvalState).run state = (.ok state, state) :=
  rfl

theorem run_modify (change : EvalState → EvalState) (state : EvalState) :
    (modify change : EvalM Unit).run state = (.ok (), change state) :=
  rfl

theorem run_layer {id : LayerId} {state : EvalState} {found : Layer}
    (isFound : state.network.layer? id = some found) :
    (layer id).run state = (.ok found, state) := by
  unfold layer
  simp only [Outcome.run_bind, run_get, isFound]
  rfl

/-- A layer that is looked up is one of the network. -/
theorem behaves_layer_bind {id : LayerId} {next : Layer → EvalM Next} (inside : id < network.size)
    (each : ∀ found, network.Stores id found → Behaves network feed active Met (next found)) :
    Behaves network feed active Met (layer id >>= next) := by
  intro before standing outcome after ended
  obtain ⟨found, isFound, stores⟩ := Network.exists_stores standing.layers inside
  rw [Outcome.run_bind, run_layer isFound] at ended
  exact each found stores before standing outcome after ended

/-- Values are gathered one after the other. -/
theorem behaves_gather {value : LayerId → EvalM Vector32} : ∀ {ids : List LayerId},
    (∀ id ∈ ids, Behaves network feed active (· = id) (value id)) →
      Behaves network feed active (· ∈ ids) (gather value ids)
  | [], _ => behaves_pure [] fun _ => List.not_mem_nil
  | first :: rest, each => by
      obtain ⟨head, tail⟩ := List.forall_mem_cons.1 each
      refine .imp (behaves_bind head fun _ => behaves_bind (behaves_gather tail) fun _ =>
        behaves_pure _ fun _ => not_false) fun id member => ?_
      rcases List.mem_cons.1 member with same | later
      · exact .inl same
      · exact .inr (.inl later)

/-- The children of a module are applied one after the other. -/
theorem behaves_runChildren {apply : LayerId → Vector32 → EvalM Vector32} {input : Vector32}
    {MetBy : LayerId → LayerId → Prop} : ∀ {children : List LayerId} {last : Vector32},
    (∀ child ∈ children, ∀ given, Behaves network feed active (MetBy child) (apply child given)) →
      Behaves network feed active (fun id => ∃ child ∈ children, MetBy child id)
        (runChildren feed apply input last children)
  | [], last, _ => behaves_pure last fun _ ⟨_, member, _⟩ => List.not_mem_nil member
  | first :: rest, last, each => by
      obtain ⟨head, tail⟩ := List.forall_mem_cons.1 each
      refine .imp (behaves_bind (head _) fun _ => behaves_runChildren tail) fun id met => ?_
      obtain ⟨child, member, met⟩ := met
      rcases List.mem_cons.1 member with rfl | later
      · exact .inl met
      · exact .inr ⟨child, later, met⟩

/-- An input that is asked for is supplied, or missing as foreseen. -/
theorem behaves_external {name : String} (nothing : ∀ id, ¬ Met id)
    (foreseen : feed.inputs.lookup name = none → network.Foreseen feed (.missingInput name)) :
    Behaves network feed active Met (external feed name) := by
  unfold external
  cases supplied : feed.inputs.lookup name with
  | some value => exact behaves_pure value nothing
  | none => exact behaves_throw (foreseen supplied)

end Combinators

/-! ## Visits -/

section Visits

variable {network : Network} {feed : Feed} {active : List LayerId} {id : LayerId}

theorem run_visit {computation : Layer → EvalM Vector32} {state : EvalState} {found : Layer}
    (isFound : state.network.layer? id = some found) :
    (visit id computation).run state =
      match state.cache.lookup id with
      | some value => (.ok value, state)
      | none =>
        if state.active.contains id then (.error (.cycle found.name), state)
        else (marked id (computation found)).run state := by
  unfold visit
  simp only [Outcome.run_bind, run_get]
  cases state.cache.lookup id with
  | some value => rfl
  | none =>
      simp only [Outcome.run_bind, run_get, run_layer isFound]
      split <;> rfl

theorem run_marked (computation : EvalM Vector32) (state : EvalState) :
    (marked id computation).run state =
      match computation.run (state.enter id) with
      | (.ok value, after) => (.ok value, (after.leave id).remember id value)
      | (.error fault, after) => (.error fault, after.leave id) :=
  rfl

/-- While a layer is computed it stands on the path, and then its value is remembered. -/
theorem behaves_marked {computation : EvalM Vector32}
    (behaves : Behaves network feed (id :: active) (network.Depends feed id) computation) :
    Behaves network feed active (· = id) (marked id computation) := by
  intro before standing outcome after ended
  have entered : Standing network feed (id :: active) (before.enter id) :=
    ⟨congrArg (id :: ·) standing.active, standing.layers, standing.grounded⟩
  rcases stopped : computation.run (before.enter id) with ⟨inner, between⟩
  have leaves := behaves _ entered inner between stopped
  have left : (between.leave id).active = active := by
    rw [EvalState.leave, leaves.standing.active]
    exact List.erase_cons_head id active
  rw [run_marked, stopped] at ended
  cases inner with
  | error fault =>
      cases ended
      exact .failed ⟨left, leaves.standing.layers, leaves.standing.grounded⟩ leaves.keeps
        (leaves.foreseen fault rfl)
  | ok value =>
      cases ended
      refine .succeeded ⟨left, leaves.standing.layers, ?_⟩ ?_ ?_
      · exact .cons (leaves.met value rfl) leaves.standing.grounded
      · exact List.Subset.trans leaves.keeps (List.subset_cons_self _ _)
      · rintro other rfl
        exact List.mem_cons_self

private theorem mem_known_of_lookup {state : EvalState} {value : Vector32}
    (remembered : state.cache.lookup id = some value) : id ∈ known state :=
  List.mem_map_of_mem (f := Prod.fst) (Table.mem_of_lookup remembered)

/-- A layer that the path leads to is known, closes a cycle, or is computed. -/
theorem behaves_visit {computation : Layer → EvalM Vector32}
    (isPath : IsPath (network.Depends feed) network.size active)
    (comesTo : ComesTo (network.Depends feed) network.size active id)
    (reaches : network.Reaches feed id)
    (behaves : ∀ found, network.Stores id found → id ∉ active →
      Behaves network feed (id :: active) (network.Depends feed id) (computation found)) :
    Behaves network feed active (· = id) (visit id computation) := by
  intro before standing outcome after ended
  obtain ⟨found, isFound, stores⟩ := Network.exists_stores standing.layers comesTo.inside
  rw [run_visit isFound] at ended
  split at ended
  · rename_i value remembered
    cases ended
    refine .succeeded standing (List.Subset.refl _) ?_
    rintro other rfl
    exact mem_known_of_lookup remembered
  rw [standing.active] at ended
  split at ended
  · rename_i onPath
    cases ended
    obtain ⟨layer, isLayer, alike⟩ := stores.exists_alike
    refine .failed standing (List.Subset.refl _) ?_
    rw [← alike.name]
    exact .cycle isLayer reaches (isPath.transGen_self (List.contains_iff_mem.1 onPath) comesTo)
  · rename_i offPath
    have computes := behaves found stores (mt List.contains_iff_mem.2 offPath)
    exact behaves_marked computes before standing outcome after ended

end Visits

/-! ## Layers -/

section Layers

variable {network : Network} {feed : Feed} {active : List LayerId} {id : LayerId} {found : Layer}
  {Met : LayerId → Prop}

/-- Weights may be created for a dense layer of the network. -/
theorem Standing.keepWeights {state : EvalState} (standing : Standing network feed active state)
    (stores : network.Stores id found) (numbered : found.id = id) {dense : Dense}
    (isDense : found.kind = .dense dense) (width : Nat) :
    Standing network feed active (state.keepWeights found.id dense width) := by
  obtain ⟨layer, isLayer, alike⟩ := stores.exists_alike
  refine ⟨standing.active, ?_, standing.grounded⟩
  rw [← standing.layers, numbered]
  refine Network.unweighted_setKind fun current isCurrent => ?_
  obtain ⟨same, isSame, sameStores⟩ :=
    Network.exists_stores standing.layers (Network.lt_size_of_layer? isLayer)
  cases isCurrent.symm.trans isSame
  obtain ⟨other, isOther, otherAlike⟩ := sameStores.exists_alike
  cases isLayer.symm.trans isOther
  rw [← otherAlike.unweighted, alike.unweighted, isDense]
  rfl

private theorem forward_eq_error {dense : Dense} {name : String} {input : Vector32}
    {fault : GraphError} (failed : dense.forward name input = .error fault) :
    ∃ expected, expected ≠ input.length ∧ fault = .shapeMismatch name expected input.length := by
  unfold Dense.forward at failed
  dsimp only at failed
  split at failed
  · rename_i differs
    cases failed
    exact ⟨_, by simpa using differs, rfl⟩
  · cases failed

/-- A dense layer keeps its weights and fails only on an input of another width. -/
theorem behaves_applyDense {dense : Dense} {input : Vector32} (numbered : found.id = id)
    (stores : network.Stores id found) (isDense : found.kind = .dense dense)
    (nothing : ∀ id, ¬ Met id) :
    Behaves network feed active Met (applyDense found.id found.name dense input) := by
  intro before standing outcome after ended
  obtain ⟨layer, isLayer, alike⟩ := stores.exists_alike
  have kept := standing.keepWeights stores numbered isDense input.length
  unfold applyDense at ended
  simp only [Outcome.run_bind, run_modify] at ended
  cases forwarded : dense.forward found.name input with
  | ok value =>
      rw [forwarded] at ended
      cases ended
      exact .succeeded kept (List.Subset.refl _) fun id met => absurd met (nothing id)
  | error fault =>
      rw [forwarded] at ended
      cases ended
      obtain ⟨expected, differs, rfl⟩ := forward_eq_error forwarded
      obtain ⟨own, isOwn⟩ := alike.exists_dense isDense
      refine .failed kept (List.Subset.refl _) ?_
      rw [← alike.name]
      exact .mismatch isLayer isOwn differs

private theorem evaluate_eq_error {condition : Condition} {fault : GraphError} {layer : Layer}
    {thenRoot elseRoot : Option LayerId}
    (chooses : network.ChoosesBy id layer condition thenRoot elseRoot)
    (failed : condition.evaluate feed.inputs = .error fault) : network.Foreseen feed fault := by
  unfold Condition.evaluate at failed
  split at failed
  · rename_i missing
    cases failed
    exact .noOperand chooses missing
  · rename_i values supplied
    dsimp only at failed
    split at failed
    · rename_i outside
      cases failed
      exact .outOfRange chooses supplied (List.getElem?_eq_none_iff.1 outside)
    · cases failed

/-- The function of a layer is applied; whatever conditional layer it holds is evaluated. -/
theorem behaves_applyLayer (wellFormed : network.WellFormed) (stores : network.Stores id found)
    {value : LayerId → EvalM Vector32} {apply : LayerId → Vector32 → EvalM Vector32}
    {input : Vector32}
    (valued : network.IsConditional id → Behaves network feed active (· = id) (value id))
    (applied : ∀ child, network.Groups id child → ∀ given,
      Behaves network feed active (network.HoldsConditional child) (apply child given)) :
    Behaves network feed active (network.HoldsConditional id)
      (applyLayer feed value apply found input) := by
  obtain ⟨layer, isLayer, alike⟩ := stores.exists_alike
  have numbered : found.id = id := alike.id.symm.trans (wellFormed.numbered isLayer)
  have nothing (childless : found.kind.children = []) (plain : found.kind.isConditional = false)
      (other : LayerId) : ¬ network.HoldsConditional id other := by
    intro holds
    rcases holds.cases isLayer with ⟨_, isConditional⟩ | ⟨child, member, _⟩
    · rw [alike.isConditional, plain] at isConditional
      cases isConditional
    · rw [alike.children, childless] at member
      cases member
  unfold applyLayer
  cases kind : found.kind with
  | input size shape =>
      rw [kind] at nothing
      refine behaves_external (nothing rfl rfl) fun missing => ?_
      rw [← alike.name] at missing ⊢
      exact .noInput isLayer (by rw [alike.isInput, kind]; rfl) missing
  | dense dense =>
      rw [kind] at nothing
      exact behaves_applyDense numbered stores kind (nothing rfl rfl)
  | conditional condition thenRoot elseRoot =>
      have isConditional : network.IsConditional id :=
        ⟨layer, isLayer, by rw [alike.isConditional, kind]; rfl⟩
      dsimp only
      rw [numbered]
      refine (valued isConditional).imp fun other holds => ?_
      rcases holds.cases isLayer with ⟨same, _⟩ | ⟨child, member, _⟩
      · exact same
      · rw [alike.children, kind] at member
        cases member
  | composite children =>
      refine (behaves_runChildren fun child member =>
        applied child ⟨layer, isLayer, by rw [alike.children, kind]; exact member⟩).imp
          fun other holds => ?_
      rcases holds.cases isLayer with ⟨_, isConditional⟩ | ⟨child, member, below⟩
      · rw [alike.isConditional, kind] at isConditional
        cases isConditional
      · rw [alike.children, kind] at member
        exact ⟨child, member, below⟩
  | test _ _ _ | repetition _ _ _ _ | template _ =>
      have unrolled := wellFormed.unrolled isLayer
      rw [alike.kind (by rw [kind]; rfl), kind] at unrolled
      cases unrolled
  | _ =>
      rw [kind] at nothing
      exact behaves_pure _ (nothing rfl rfl)

/-- A conditional layer has the value of the root that its condition selects, or one from
outside. -/
theorem behaves_conditional {layer : Layer} {text : String} {condition : Condition}
    {thenRoot elseRoot : Option LayerId}
    (chooses : network.ChoosesBy id layer condition thenRoot elseRoot)
    (parsed : Condition.parse text = .ok condition) {value : LayerId → EvalM Vector32}
    (valued : ∀ other, network.Depends feed id other →
      Behaves network feed active (· = other) (value other)) :
    Behaves network feed active (network.Depends feed id) (do
      match ← selectRoot feed text thenRoot elseRoot with
      | some root => value root
      | none => external feed layer.name) := by
  unfold selectRoot
  rw [parsed]
  dsimp only
  cases decided : condition.evaluate feed.inputs with
  | error fault => exact behaves_throw (evaluate_eq_error chooses decided)
  | ok holds =>
      rw [pure_bind]
      have onlyRoot {other : LayerId} (depends : network.Depends feed id other) :=
        Network.eq_root_of_depends chooses decided depends
      cases selected : if holds then thenRoot else elseRoot with
      | some root =>
          refine (valued root (.root chooses decided selected)).imp fun other depends => ?_
          exact Option.some.inj ((onlyRoot depends).symm.trans selected)
      | none =>
          refine behaves_external (fun other depends => ?_) (.noRoot chooses decided selected)
          cases selected.symm.trans (onlyRoot depends)

/-- The value of a layer is computed from those it depends on. -/
theorem behaves_compute (wellFormed : network.WellFormed) (readable : network.Readable)
    (stores : network.Stores id found)
    {value : LayerId → EvalM Vector32} {apply : LayerId → Vector32 → EvalM Vector32}
    (valued : ∀ other, network.Depends feed id other →
      Behaves network feed active (· = other) (value other))
    (applied : ¬ network.IsConditional id → ∀ input,
      Behaves network feed active (network.HoldsConditional id) (apply id input)) :
    Behaves network feed active (network.Depends feed id) (compute feed value apply found) := by
  obtain ⟨layer, isLayer, alike⟩ := stores.exists_alike
  have numbered : found.id = id := alike.id.symm.trans (wellFormed.numbered isLayer)
  -- Any other layer gathers the values of its producers.
  have gathers (notInput : found.kind.isInput = false)
      (notConditional : found.kind.isConditional = false) :
      Behaves network feed active (network.Depends feed id)
        (gather value found.inputs >>= apply found.id) := by
    rw [← alike.isInput] at notInput
    rw [← alike.isConditional] at notConditional
    have isPlain : ¬ network.IsConditional id := fun isConditional => by
      rw [isConditional.of_found isLayer] at notConditional
      cases notConditional
    rw [numbered, ← alike.inputs]
    refine (behaves_bind (behaves_gather fun producer stored => valued producer
      (.producer isLayer notInput notConditional stored)) (applied isPlain)).imp fun other => ?_
    exact Network.producer_or_grouped isLayer notConditional
  unfold compute
  cases kind : found.kind with
  | input size shape =>
      have isInput : layer.kind.isInput = true := by
        rw [alike.isInput, kind]
        rfl
      refine behaves_external (fun _ => Network.not_depends_of_isInput isLayer isInput) ?_
      intro missing
      rw [← alike.name] at missing ⊢
      exact .noInput isLayer isInput missing
  | conditional text thenRoot elseRoot =>
      have sameKind := alike.kind (by rw [kind]; rfl)
      rw [kind] at sameKind
      obtain ⟨condition, parsed⟩ := readable.exists_condition isLayer sameKind
      rw [← alike.name]
      exact behaves_conditional ⟨isLayer, text, sameKind, parsed⟩ parsed valued
  | _ =>
      rw [kind] at gathers
      exact gathers rfl rfl

end Layers

/-! ## The bound on the depth -/

section Depth

variable {network : Network} {feed : Feed} {active : List LayerId} {id : LayerId}

/-- A depth is enough for values: for every layer that is not on the path there is room for as many
modules inside one another as there are layers. -/
def ValuesBehave (network : Network) (feed : Feed) (depth : Nat) : Prop :=
  ∀ {active : List LayerId} {id : LayerId}, IsPath (network.Depends feed) network.size active →
    ComesTo (network.Depends feed) network.size active id → network.Reaches feed id →
    (network.size - active.length) * (network.size + 1) < depth →
    Behaves network feed active (· = id) (valueWithin feed depth id)

/-- A depth is enough for the layers inside a module that is computed: there is also room for the
layers before them, which they may group. -/
def ApplicationsBehave (network : Network) (feed : Feed) (depth : Nat) : Prop :=
  ∀ {active : List LayerId} {host id : LayerId} (input : Vector32),
    IsPath (network.Depends feed) network.size (host :: active) → network.Reaches feed host →
    ¬ network.IsConditional host → Relation.ReflTransGen network.Groups host id →
    id < network.size →
    (network.size - (active.length + 1)) * (network.size + 1) + id + 1 < depth →
    Behaves network feed (host :: active) (network.HoldsConditional id)
      (applyWithin feed depth id input)

/-- A value is computed on a longer path. -/
theorem valuesBehave_succ (wellFormed : network.WellFormed) (readable : network.Readable)
    {depth : Nat} (values : ValuesBehave network feed depth)
    (applications : ApplicationsBehave network feed depth) :
    ValuesBehave network feed (depth + 1) := by
  intro active id isPath comesTo reaches room
  rw [valueWithin]
  refine behaves_visit isPath comesTo reaches fun found stores offPath => ?_
  have longer := isPath.cons offPath comesTo
  have shorter := longer.length_le
  rw [List.length_cons] at shorter
  obtain ⟨left, isLeft⟩ : ∃ left, network.size - active.length = left + 1 :=
    ⟨network.size - active.length - 1, by omega⟩
  have isLess : network.size - (active.length + 1) = left := by omega
  rw [isLeft, Nat.succ_mul] at room
  refine behaves_compute wellFormed readable stores (fun other depends => ?_)
    fun notConditional input => ?_
  · refine values longer (.of_needs active (depends.lt_size wellFormed) depends)
      (reaches.of_depends depends) ?_
    rw [List.length_cons, isLess]
    omega
  · refine applications input longer reaches notConditional .refl comesTo.inside ?_
    rw [isLess]
    have deeper : left * (network.size + 1) + network.size < depth := by omega
    exact Nat.lt_of_le_of_lt (Nat.add_le_add_left comesTo.inside _) deeper

/-- A layer inside a module applies earlier layers, or is a conditional one and evaluated. -/
theorem applicationsBehave_succ (wellFormed : network.WellFormed) {depth : Nat}
    (values : ValuesBehave network feed depth)
    (applications : ApplicationsBehave network feed depth) :
    ApplicationsBehave network feed (depth + 1) := by
  intro active host id input isPath reaches notConditional groups inside room
  rw [applyWithin]
  refine behaves_layer_bind inside fun found stores => ?_
  refine behaves_applyLayer wellFormed stores (fun isConditional => ?_)
    fun child isChild given => ?_
  · have below : Relation.TransGen network.Groups host id := by
      rcases Relation.reflTransGen_iff_eq_or_transGen.1 groups with rfl | below
      · exact absurd isConditional notConditional
      · exact below
    have depends : network.Depends feed host id := .grouped below isConditional
    refine values isPath (.of_needs active inside depends) (reaches.of_depends depends) ?_
    rw [List.length_cons]
    omega
  · obtain ⟨layer, isLayer, member⟩ := isChild
    have earlier := wellFormed.childrenEarlier isLayer member
    refine applications given isPath reaches notConditional
      (groups.tail ⟨layer, isLayer, member⟩) (Nat.lt_trans earlier inside) ?_
    exact Nat.lt_of_le_of_lt (Nat.add_le_add_left earlier _) (Nat.lt_of_succ_lt_succ room)

private theorem behaves_within (wellFormed : network.WellFormed) (readable : network.Readable) :
    ∀ depth, ValuesBehave network feed depth ∧ ApplicationsBehave network feed depth
  | 0 => ⟨fun _ _ _ room => absurd room (Nat.not_lt_zero _),
      fun _ _ _ _ _ _ room => absurd room (Nat.not_lt_zero _)⟩
  | depth + 1 => by
      obtain ⟨values, applications⟩ := behaves_within wellFormed readable depth
      exact ⟨valuesBehave_succ wellFormed readable values applications,
        applicationsBehave_succ wellFormed values applications⟩

/-- The value of a forward root is computed within the depth that is granted. -/
theorem behaves_value (wellFormed : network.WellFormed) (readable : network.Readable)
    (isRoot : id ∈ network.forwardRoots) (inside : id < network.size) :
    Behaves network feed [] (· = id) (value feed id) := by
  unfold value
  refine behaves_get_bind fun state standing => ?_
  have sameSize : state.network.size = network.size := by
    rw [← Network.length_unweighted, standing.layers, Network.length_unweighted]
  have room : (network.size - ([] : List LayerId).length) * (network.size + 1) <
      depthFor state.network := by
    rw [depthFor, sameSize, List.length_nil, Nat.sub_zero]
    exact Nat.mul_lt_mul'' (by omega) (by omega)
  exact (behaves_within wellFormed readable _).1 (isPath_nil _ _) (.of_nil _ inside)
    ⟨id, isRoot, .refl⟩ room

/-- The forward roots are evaluated one after the other. -/
theorem behaves_valuesByName (wellFormed : network.WellFormed) (readable : network.Readable) :
    ∀ {ids : List LayerId} (done : List (String × Vector32)),
      (∀ id ∈ ids, id ∈ network.forwardRoots) → (∀ id ∈ ids, id < network.size) →
      Behaves network feed [] (· ∈ ids) (valuesByName feed done ids)
  | [], done, _, _ => behaves_pure done fun _ => List.not_mem_nil
  | first :: rest, done, roots, inside => by
      obtain ⟨isRoot, roots⟩ := List.forall_mem_cons.1 roots
      obtain ⟨firstInside, inside⟩ := List.forall_mem_cons.1 inside
      refine (behaves_bind (behaves_value wellFormed readable isRoot firstInside) fun result =>
        behaves_get_bind fun _ _ =>
          behaves_valuesByName wellFormed readable _ roots inside).imp fun id member => ?_
      exact List.mem_cons.1 member

end Depth

end Evaluation

namespace Network

variable {network : Network}

/-- Only layers of the network are forward roots. -/
theorem lt_size_of_forwardRoots (wellFormed : network.WellFormed) {id : LayerId}
    (isRoot : id ∈ network.forwardRoots) : id < network.size := by
  obtain ⟨layer, member, rfl⟩ := List.mem_map.1 isRoot
  obtain ⟨position, inside, rfl⟩ := Array.mem_iff_getElem.1
    (Array.mem_toList_iff.1 (List.mem_filter.1 member).1)
  rw [wellFormed.numbered (Array.getElem?_eq_getElem inside)]
  exact inside

/-- The networks that evaluations lead to one after the other, each keeping the weights that the
one before it has created. -/
inductive EvaluatesTo (network : Network) : Network → Prop where
  | start : EvaluatesTo network network
  | next {current : Network} (earlier : EvaluatesTo network current) (feed : Feed) :
      EvaluatesTo network (current.forward feed).2

/-- An evaluation changes nothing but weights, and it finishes every forward root after all it
depends on, or fails as foreseen. -/
theorem forward_cases (wellFormed : network.WellFormed) (readable : network.Readable)
    {current : Network} (same : current.unweighted = network.unweighted) (feed : Feed) :
    (current.forward feed).2.unweighted = network.unweighted ∧
      ((∃ values finished, (current.forward feed).1 = .ok values ∧
          Grounded (network.Depends feed) finished ∧
          ∀ root ∈ network.forwardRoots, root ∈ finished) ∨
        ∃ fault, (current.forward feed).1 = .error fault ∧ network.Foreseen feed fault) := by
  have standing : Evaluation.Standing network feed [] (EvalState.start current) :=
    ⟨rfl, same, .nil⟩
  have sameRoots : current.forwardRoots = network.forwardRoots := by
    rw [forwardRoots_eq, forwardRoots_eq, same]
  have behaves : Evaluation.Behaves network feed [] (· ∈ network.forwardRoots)
      (Evaluation.valuesByName feed [] network.forwardRoots) :=
    Evaluation.behaves_valuesByName wellFormed readable [] (fun _ => id) fun _ =>
      lt_size_of_forwardRoots wellFormed
  rcases ended : (Evaluation.valuesByName feed [] network.forwardRoots).run
    (EvalState.start current) with ⟨outcome, after⟩
  have leaves := behaves _ standing outcome after ended
  have forwarded : current.forward feed = (outcome, after.network) := by
    rw [forward, sameRoots, ended]
  rw [forwarded]
  refine ⟨leaves.standing.layers, ?_⟩
  cases outcome with
  | ok values => exact .inl ⟨values, _, rfl, leaves.standing.grounded, leaves.met values rfl⟩
  | error fault => exact .inr ⟨fault, rfl, leaves.foreseen fault rfl⟩

/-- Whatever evaluations lead to differs in weights only. -/
theorem EvaluatesTo.unweighted {current : Network} (wellFormed : network.WellFormed)
    (readable : network.Readable) (evaluates : network.EvaluatesTo current) :
    current.unweighted = network.unweighted := by
  induction evaluates with
  | start => rfl
  | next _ feed inductionHypothesis =>
      exact (forward_cases wellFormed readable inductionHypothesis feed).1

end Network

end NetBlueprint
