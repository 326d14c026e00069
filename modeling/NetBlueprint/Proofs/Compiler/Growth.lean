import NetBlueprint.Compiler.Wiring
import NetBlueprint.Proofs.Graph.WellFormed
import NetBlueprint.Proofs.Table

/-!
Contract: what no step of a compilation takes back.

Scopes, layers, issues, recorded connections, suffixes and branches only become more. So an
endpoint that can be resolved at some point can be resolved ever after, although it may come to
stand for another layer, and every table that finds layers by name finds layers of that name.

Owns: the order of states, the invariant of states, and the steps that touch neither recorded
connections nor edges.
-/

namespace NetBlueprint

namespace Name

/-- The names under which an endpoint is looked up: itself, without its hygiene suffix, and without
the digits at the end of that. -/
def Spells (endpoint name : String) : Prop :=
  name = endpoint ∨ name = base endpoint ∨ name = stem (base endpoint)

end Name

def Network.Named (network : Network) (name : String) (id : LayerId) : Prop :=
  ∃ layer, network.layer? id = some layer ∧ layer.name = name

theorem Network.named_iff_names {network : Network} {name : String} {id : LayerId} :
    network.Named name id ↔ network.names[id]? = some name := by
  rw [names, List.getElem?_map, Array.getElem?_toList, Option.map_eq_some_iff]
  rfl

/-- A layer keeps its name. -/
theorem Network.GrowsTo.named {earlier later : Network} (grows : earlier.GrowsTo later)
    {name : String} {id : LayerId} (named : earlier.Named name id) : later.Named name id := by
  obtain ⟨layer, found, rfl⟩ := named
  obtain ⟨same, sameFound, sameNode⟩ := grows.layer? found
  exact ⟨same, sameFound, Layer.name_eq_of_node sameNode⟩

theorem Network.lt_size_of_named {network : Network} {name : String} {id : LayerId}
    (named : network.Named name id) : id < network.size := by
  obtain ⟨_, found, _⟩ := named
  exact Network.lt_size_of_layer? found

/-- A name that some layer has is found. -/
theorem Network.isSome_findId? {network : Network} {name : String} {id : LayerId}
    (named : network.Named name id) : (network.findId? name).isSome = true := by
  obtain ⟨layer, found, sameName⟩ := named
  have member : layer ∈ network.layers := Array.mem_of_getElem? found
  rw [findId?, Option.isSome_map, find?, Array.find?_isSome]
  exact ⟨layer, member, beq_iff_eq.2 sameName⟩

namespace CompileState

/-- The first state is a stage on the way to the second. -/
structure GrowsTo (earlier later : CompileState) : Prop where
  network : earlier.network.GrowsTo later.network
  scopes : ∀ {id : ScopeId} {scope : Scope}, earlier.scopes[id]? = some scope →
    ∃ grown, later.scopes[id]? = some grown ∧ grown.parent = scope.parent ∧
      scope.entries <:+ grown.entries
  firstNamed : earlier.firstNamed <+: later.firstNamed
  pending : earlier.pending.toList <+: later.pending.toList
  usedSuffixes : earlier.usedSuffixes ⊆ later.usedSuffixes
  branchCount : earlier.branchCount ≤ later.branchCount

/-- Every table that finds layers by name finds layers of that name, in a well-formed network. -/
structure Sound (state : CompileState) : Prop where
  network : state.network.WellFormed
  readable : state.network.Readable
  scopes : ∀ {id : ScopeId} {scope : Scope} {name layer}, state.scopes[id]? = some scope →
    (name, layer) ∈ scope.entries → state.network.Named name layer
  firstNamed : ∀ {name layer}, (name, layer) ∈ state.firstNamed → state.network.Named name layer
  inputCache : ∀ {name layer}, (name, layer) ∈ state.inputCache → state.network.Named name layer

/-- The second state follows the first without a new connection or edge, and is sound if the first
one is. -/
structure LeadsTo (before after : CompileState) : Prop where
  grows : before.GrowsTo after
  sound : before.Sound → after.Sound
  pending : after.pending = before.pending
  edges : ∀ {source target}, after.network.Edge source target → before.network.Edge source target

/-! ## Association tables -/

theorem mem_offered {Value : Type} {table : List (String × Value)} {name key : String}
    {value other : Value} (member : (key, other) ∈ offered table name value) :
    (key, other) ∈ table ∨ key = name ∧ other = value := by
  unfold offered at member
  split at member
  · exact .inl member
  · rcases List.mem_append.1 member with old | new
    · exact .inl old
    · exact .inr (Prod.mk.inj (List.mem_singleton.1 new))

/-- What a table offers already stays in front. -/
theorem prefix_offered {Value : Type} (table : List (String × Value)) (name : String)
    (value : Value) : table <+: offered table name value := by
  unfold offered
  split
  · exact List.prefix_refl _
  · exact List.prefix_append _ _

/-- A name that a table does not hold is entered with its value. -/
theorem lookup_offered_self {Value : Type} {table : List (String × Value)} {name : String}
    {value : Value} (free : table.lookup name = none) :
    (offered table name value).lookup name = some value := by
  rw [offered, free, Option.isSome_none, if_neg Bool.false_ne_true, List.lookup_append, free,
    Option.none_or, List.lookup_cons_self]

/-! ## The order of states -/

namespace GrowsTo

theorem refl (state : CompileState) : state.GrowsTo state :=
  ⟨.refl _, fun {_ scope} found => ⟨scope, found, rfl, List.suffix_refl _⟩, List.prefix_refl _,
    List.prefix_refl _, List.Subset.refl _, Nat.le_refl _⟩

theorem trans {first second third : CompileState} (earlier : first.GrowsTo second)
    (later : second.GrowsTo third) : first.GrowsTo third where
  network := earlier.network.trans later.network
  scopes found := by
    obtain ⟨middle, middleFound, middleParent, middleEntries⟩ := earlier.scopes found
    obtain ⟨grown, grownFound, grownParent, grownEntries⟩ := later.scopes middleFound
    exact ⟨grown, grownFound, grownParent.trans middleParent, middleEntries.trans grownEntries⟩
  firstNamed := earlier.firstNamed.trans later.firstNamed
  pending := earlier.pending.trans later.pending
  usedSuffixes := List.Subset.trans earlier.usedSuffixes later.usedSuffixes
  branchCount := Nat.le_trans earlier.branchCount later.branchCount

variable {earlier later : CompileState}

/-- No scope is forgotten. -/
theorem scopes_size_le (grows : earlier.GrowsTo later) :
    earlier.scopes.size ≤ later.scopes.size := by
  refine Nat.le_of_not_lt fun fewer => ?_
  obtain ⟨_, found, _⟩ := grows.scopes (Array.getElem?_eq_getElem fewer)
  rw [Array.getElem?_eq_none (Nat.le_refl _)] at found
  cases found

/-! ## Resolution stays -/

private theorem chainWithin_visible (grows : earlier.GrowsTo later) {name : String} :
    ∀ {budget more : Nat} {id : ScopeId}, budget ≤ more →
      (∃ scope ∈ earlier.chainWithin budget id, ∃ layer, (name, layer) ∈ scope.entries) →
      ∃ scope ∈ later.chainWithin more id, ∃ layer, (name, layer) ∈ scope.entries
  | 0, _, _, _, visible => by
      obtain ⟨_, member, _⟩ := visible
      cases member
  | budget + 1, 0, _, enough, _ => absurd enough (Nat.not_succ_le_zero budget)
  | budget + 1, more + 1, id, enough, visible => by
      obtain ⟨holder, member, layer, entry⟩ := visible
      rw [chainWithin] at member
      split at member
      · cases member
      rename_i scope scopeFound
      obtain ⟨grown, grownFound, sameParent, moreEntries⟩ := grows.scopes scopeFound
      rw [chainWithin, grownFound]
      dsimp only
      rw [sameParent]
      split at member
      · cases List.mem_singleton.1 member
        exact ⟨grown, List.mem_singleton_self _, layer, moreEntries.subset entry⟩
      · rename_i parent _
        rcases List.mem_cons.1 member with rfl | above
        · exact ⟨grown, List.mem_cons_self, layer, moreEntries.subset entry⟩
        · obtain ⟨found, foundMember, shown⟩ :=
            chainWithin_visible grows (Nat.le_of_succ_le_succ enough)
              ⟨holder, above, layer, entry⟩
          exact ⟨found, List.mem_cons_of_mem _ foundMember, shown⟩

private theorem isSome_lookupChain_iff {state : CompileState} {scope : ScopeId} {name : String} :
    (state.lookupChain scope name).isSome = true ↔
      ∃ inner ∈ state.chain scope, ∃ layer, (name, layer) ∈ inner.entries := by
  rw [lookupChain, List.findSome?_isSome_iff]
  exact exists_congr fun inner => and_congr_right fun _ => Table.isSome_lookup_iff

/-- A name that is visible stays visible. -/
theorem lookupChain (grows : earlier.GrowsTo later) {scope : ScopeId} {name : String}
    (found : (earlier.lookupChain scope name).isSome = true) :
    (later.lookupChain scope name).isSome = true :=
  isSome_lookupChain_iff.2
    (chainWithin_visible grows grows.scopes_size_le (isSome_lookupChain_iff.1 found))

private theorem isSome_or {Value : Type} {first second : Option Value} :
    (first.or second).isSome = true ↔ first.isSome = true ∨ second.isSome = true := by
  rw [Option.isSome_or, Bool.or_eq_true]

/-- A name that can be resolved exactly stays so. -/
theorem resolveExact (grows : earlier.GrowsTo later) {scope : ScopeId} {name : String}
    (found : (earlier.resolveExact scope name).isSome = true) :
    (later.resolveExact scope name).isSome = true := by
  rcases isSome_or.1 found with inScope | anywhere
  · exact isSome_or.2 (.inl (grows.lookupChain inScope))
  · obtain ⟨id, idFound⟩ := Option.isSome_iff_exists.1 anywhere
    refine isSome_or.2 (.inr ?_)
    rw [grows.network.findId? idFound]
    rfl

theorem resolveFallback (grows : earlier.GrowsTo later) {scope : ScopeId} {name : String}
    (found : (earlier.resolveFallback scope name).isSome = true) :
    (later.resolveFallback scope name).isSome = true := by
  rcases isSome_or.1 found with inScope | anywhere
  · exact isSome_or.2 (.inl (grows.lookupChain inScope))
  · obtain ⟨id, entry⟩ := Table.isSome_lookup_iff.1 anywhere
    exact isSome_or.2 (.inr (Table.isSome_lookup_iff.2 ⟨id, grows.firstNamed.subset entry⟩))

/-- An endpoint that can be resolved can be resolved ever after. -/
theorem resolve (grows : earlier.GrowsTo later) {scope : ScopeId} {name : String}
    (found : (earlier.resolve scope name).isSome = true) :
    (later.resolve scope name).isSome = true := by
  unfold CompileState.resolve at found ⊢
  dsimp only at found ⊢
  rw [isSome_or, isSome_or] at found ⊢
  refine found.imp grows.resolveExact (Or.imp ?_ ?_)
  · intro bySuffix
    split at bySuffix
    · cases bySuffix
    · rename_i stripped
      rw [if_neg stripped]
      exact grows.resolveFallback bySuffix
  · intro byDigits
    split at byDigits
    · cases byDigits
    · rename_i stripped
      rw [if_neg stripped]
      exact grows.resolveFallback byDigits

end GrowsTo

/-! ## Resolution finds layers of the right name -/

/-- A name that some layer has is resolved as it stands. -/
theorem isSome_resolveExact_of_named {state : CompileState} (scope : ScopeId) {name : String}
    {id : LayerId} (named : state.network.Named name id) :
    (state.resolveExact scope name).isSome = true := by
  rw [resolveExact, Option.isSome_or, Network.isSome_findId? named, Bool.or_true]

/-- A name that is not resolved as it stands is the name of no layer. -/
theorem not_named_of_resolveExact {state : CompileState} {scope : ScopeId} {name : String}
    (unresolved : state.resolveExact scope name = none) (id : LayerId) :
    ¬ state.network.Named name id := by
  intro named
  have resolved := isSome_resolveExact_of_named scope named
  rw [unresolved] at resolved
  cases resolved

namespace Sound

variable {state : CompileState}

private theorem mem_chainWithin {inner : Scope} :
    ∀ {budget : Nat} {id : ScopeId}, inner ∈ state.chainWithin budget id →
      ∃ position : ScopeId, state.scopes[position]? = some inner
  | 0, _, member => by cases member
  | budget + 1, id, member => by
      rw [chainWithin] at member
      split at member
      · cases member
      rename_i scope scopeFound
      split at member
      · cases List.mem_singleton.1 member
        exact ⟨id, scopeFound⟩
      · rcases List.mem_cons.1 member with rfl | above
        · exact ⟨id, scopeFound⟩
        · exact mem_chainWithin above

/-- What is visible under a name has that name. -/
theorem lookupChain (sound : state.Sound) {scope : ScopeId} {name : String} {id : LayerId}
    (found : state.lookupChain scope name = some id) : state.network.Named name id := by
  obtain ⟨inner, member, entry⟩ := List.exists_of_findSome?_eq_some found
  obtain ⟨position, positionFound⟩ := mem_chainWithin member
  exact sound.scopes positionFound (Table.mem_of_lookup entry)

theorem findId? (sound : state.Sound) {name : String} {id : LayerId}
    (found : state.network.findId? name = some id) : state.network.Named name id := by
  obtain ⟨layer, layerFound, rfl⟩ := Option.map_eq_some_iff.1 found
  obtain ⟨position, inside, rfl⟩ := Array.mem_iff_getElem.1 (Array.mem_of_find?_eq_some layerFound)
  have stored : state.network.layer? position = some state.network.layers[position] :=
    Array.getElem?_eq_getElem inside
  have sameName : (state.network.layers[position].name == name) = true := by
    have satisfied := Array.find?_some layerFound
    exact satisfied
  rw [sound.network.numbered stored]
  exact ⟨_, stored, eq_of_beq sameName⟩

/-- What a name is resolved to exactly has that name. -/
theorem resolveExact (sound : state.Sound) {scope : ScopeId} {name : String} {id : LayerId}
    (found : state.resolveExact scope name = some id) : state.network.Named name id := by
  rcases Option.or_eq_some_iff.1 found with inScope | ⟨_, anywhere⟩
  · exact sound.lookupChain inScope
  · exact sound.findId? anywhere

theorem resolveFallback (sound : state.Sound) {scope : ScopeId} {name : String} {id : LayerId}
    (found : state.resolveFallback scope name = some id) : state.network.Named name id := by
  rcases Option.or_eq_some_iff.1 found with inScope | ⟨_, anywhere⟩
  · exact sound.lookupChain inScope
  · exact sound.firstNamed (Table.mem_of_lookup anywhere)

theorem globalInput? (sound : state.Sound) {name : String} {id : LayerId}
    (found : state.globalInput? name = some id) : state.network.Named name id :=
  sound.inputCache (Table.mem_of_lookup found)

/-- An endpoint stands for a layer whose name it spells. -/
theorem resolve (sound : state.Sound) {scope : ScopeId} {endpoint : String} {id : LayerId}
    (found : state.resolve scope endpoint = some id) :
    ∃ name, Name.Spells endpoint name ∧ state.network.Named name id := by
  unfold CompileState.resolve at found
  dsimp only at found
  rcases Option.or_eq_some_iff.1 found with exact' | ⟨_, fallback⟩
  · exact ⟨endpoint, .inl rfl, sound.resolveExact exact'⟩
  rcases Option.or_eq_some_iff.1 fallback with bySuffix | ⟨_, byDigits⟩
  · split at bySuffix
    · cases bySuffix
    · exact ⟨_, .inr (.inl rfl), sound.resolveFallback bySuffix⟩
  · split at byDigits
    · cases byDigits
    · exact ⟨_, .inr (.inr rfl), sound.resolveFallback byDigits⟩

/-- An endpoint that is the name of a layer stands for a layer of that name. -/
theorem named_of_resolve (sound : state.Sound) {scope : ScopeId} {endpoint : String}
    {id other : LayerId} (named : state.network.Named endpoint other)
    (found : state.resolve scope endpoint = some id) : state.network.Named endpoint id := by
  obtain ⟨exactId, exactFound⟩ :=
    Option.isSome_iff_exists.1 (isSome_resolveExact_of_named scope named)
  have same : exactId = id := by
    rw [CompileState.resolve, exactFound, Option.some_or] at found
    exact Option.some.inj found
  rw [← same]
  exact sound.resolveExact exactFound

end Sound

/-! ## Steps that neither record connections nor add edges -/

/-- Neither layers, issues nor tables of names differ, and no suffix or branch is forgotten. -/
structure Quiet (before after : CompileState) : Prop where
  layers : after.network.layers = before.network.layers
  issues : after.network.issues = before.network.issues
  scopes : after.scopes = before.scopes
  firstNamed : after.firstNamed = before.firstNamed
  inputCache : after.inputCache = before.inputCache
  pending : after.pending = before.pending
  usedSuffixes : before.usedSuffixes ⊆ after.usedSuffixes
  branchCount : before.branchCount ≤ after.branchCount

/-- A quiet step is a stage of its own. -/
theorem Quiet.grows {before after : CompileState} (quiet : before.Quiet after) :
    before.GrowsTo after where
  network := .of_layers quiet.layers (quiet.issues ▸ List.prefix_refl _)
  scopes {_ scope} found := by
    rw [quiet.scopes]
    exact ⟨scope, found, rfl, List.suffix_refl _⟩
  firstNamed := quiet.firstNamed ▸ List.prefix_refl _
  pending := quiet.pending ▸ List.prefix_refl _
  usedSuffixes := quiet.usedSuffixes
  branchCount := quiet.branchCount

theorem Quiet.leadsTo {before after : CompileState} (quiet : before.Quiet after) :
    before.LeadsTo after where
  grows := quiet.grows
  sound sound := {
    network := sound.network.of_layers quiet.layers
    readable := sound.readable.of_nodes (Network.nodes_of_layers quiet.layers)
    scopes := by
      intro _ _ _ _ found entry
      rw [quiet.scopes] at found
      exact quiet.grows.network.named (sound.scopes found entry)
    firstNamed := by
      intro _ _ entry
      rw [quiet.firstNamed] at entry
      exact quiet.grows.network.named (sound.firstNamed entry)
    inputCache := by
      intro _ _ entry
      rw [quiet.inputCache] at entry
      exact quiet.grows.network.named (sound.inputCache entry) }
  pending := quiet.pending
  edges := (Network.edge_iff_of_layers quiet.layers).1

namespace LeadsTo

theorem refl (state : CompileState) : state.LeadsTo state :=
  ⟨.refl _, id, rfl, id⟩

theorem trans {first second third : CompileState} (earlier : first.LeadsTo second)
    (later : second.LeadsTo third) : first.LeadsTo third :=
  ⟨earlier.grows.trans later.grows, later.sound ∘ earlier.sound,
    later.pending.trans earlier.pending, earlier.edges ∘ later.edges⟩

end LeadsTo

private theorem scope_registered {state : CompileState} {name : String} {id : LayerId}
    {position : ScopeId} {scope : Scope}
    (found : (state.registered name id).scopes[position]? = some scope) :
    ∃ before, state.scopes[position]? = some before ∧ scope.parent = before.parent ∧
      (scope.entries = before.entries ∨ scope.entries = (name, id) :: before.entries) := by
  simp only [registered, Array.getElem?_modify] at found
  split at found
  · obtain ⟨before, beforeFound, rfl⟩ := Option.map_eq_some_iff.1 found
    exact ⟨before, beforeFound, rfl, .inr rfl⟩
  · exact ⟨scope, found, rfl, .inl rfl⟩

theorem grows_registered (state : CompileState) (name : String) (id : LayerId) :
    state.GrowsTo (state.registered name id) where
  network := .refl _
  scopes {position scope} found := by
    simp only [registered, Array.getElem?_modify]
    split
    · rw [found]
      exact ⟨_, rfl, rfl, List.suffix_cons _ _⟩
    · exact ⟨scope, found, rfl, List.suffix_refl _⟩
  firstNamed := prefix_offered _ _ _
  pending := List.prefix_refl _
  usedSuffixes := List.Subset.refl _
  branchCount := Nat.le_refl _

/-- A layer may be made visible under its own name. -/
theorem leadsTo_registered {state : CompileState} {name : String} {id : LayerId}
    (named : state.Sound → state.network.Named name id) :
    state.LeadsTo (state.registered name id) where
  grows := grows_registered state name id
  sound sound := {
    network := sound.network
    readable := sound.readable
    scopes := by
      intro _ _ _ _ found entry
      obtain ⟨before, beforeFound, _, same | added⟩ := scope_registered found
      · rw [same] at entry
        exact sound.scopes beforeFound entry
      · rw [added] at entry
        rcases List.mem_cons.1 entry with new | old
        · cases new
          exact named sound
        · exact sound.scopes beforeFound old
    firstNamed := by
      intro _ _ entry
      rcases mem_offered entry with old | ⟨rfl, rfl⟩
      · exact sound.firstNamed old
      · exact named sound
    inputCache := sound.inputCache }
  pending := rfl
  edges edge := edge

/-- Only the network grows. -/
theorem grows_network {state : CompileState} {network : Network}
    (grows : state.network.GrowsTo network) : state.GrowsTo { state with network } where
  network := grows
  scopes {_ scope} found := ⟨scope, found, rfl, List.suffix_refl _⟩
  firstNamed := List.prefix_refl _
  pending := List.prefix_refl _
  usedSuffixes := List.Subset.refl _
  branchCount := Nat.le_refl _

theorem sound_network {state : CompileState} {network : Network} (sound : state.Sound)
    (grows : state.network.GrowsTo network) (wellFormed : network.WellFormed)
    (readable : network.Readable) : { state with network }.Sound where
  network := wellFormed
  readable := readable
  scopes found entry := grows.named (sound.scopes found entry)
  firstNamed entry := grows.named (sound.firstNamed entry)
  inputCache entry := grows.named (sound.inputCache entry)

private theorem leadsTo_addLayer {state : CompileState} (name : String) {kind : LayerKind}
    (accepted : state.network.Accepts kind) :
    state.LeadsTo { state with network := state.network.addLayer name kind } where
  grows := grows_network (Network.growsTo_addLayer _ _ _)
  sound sound :=
    sound_network sound (Network.growsTo_addLayer _ _ _) (sound.network.addLayer accepted)
      (sound.readable.addLayer accepted)
  pending := rfl
  edges := Network.edge_addLayer_iff.1

private theorem leadsTo_cached {state : CompileState} {name : String} {id : LayerId}
    (named : state.network.Named name id) :
    state.LeadsTo { state with inputCache := offered state.inputCache name id } where
  grows := ⟨.refl _, fun {_ scope} found => ⟨scope, found, rfl, List.suffix_refl _⟩,
    List.prefix_refl _, List.prefix_refl _, List.Subset.refl _, Nat.le_refl _⟩
  sound sound := {
    network := sound.network
    readable := sound.readable
    scopes := sound.scopes
    firstNamed := sound.firstNamed
    inputCache := by
      intro _ _ entry
      rcases mem_offered entry with old | ⟨rfl, rfl⟩
      · exact sound.inputCache old
      · exact named }
  pending := rfl
  edges edge := edge

/-- A layer may be added whose kind refers to layers that are there. -/
theorem leadsTo_withLayer {state : CompileState} (name : String) {kind : LayerKind}
    (accepted : state.network.Accepts kind) : state.LeadsTo (state.withLayer name kind) := by
  have named : (state.network.addLayer name kind).Named name state.network.size :=
    ⟨_, Network.layer?_addLayer_size _ _ _, rfl⟩
  have visible := (leadsTo_addLayer name accepted).trans (leadsTo_registered fun _ => named)
  unfold withLayer
  dsimp only
  split
  · exact visible.trans (leadsTo_cached named)
  · exact visible

theorem nodes_withLayer (state : CompileState) (name : String) (kind : LayerKind) :
    (state.withLayer name kind).network.nodes =
      state.network.nodes ++ [⟨state.network.size, name, kind, [], []⟩] :=
  Network.nodes_addLayer _ _ _

theorem leadsTo_entered (state : CompileState) : state.LeadsTo state.entered where
  grows := {
    network := .refl _
    scopes := by
      intro position scope found
      have inside : position < state.scopes.size := (Array.getElem?_eq_some_iff.1 found).1
      refine ⟨scope, ?_, rfl, List.suffix_refl _⟩
      rw [← found]
      exact (Array.getElem?_push_lt inside).trans (Array.getElem?_eq_getElem inside).symm
    firstNamed := List.prefix_refl _
    pending := List.prefix_refl _
    usedSuffixes := List.Subset.refl _
    branchCount := Nat.le_refl _ }
  sound sound := {
    network := sound.network
    readable := sound.readable
    scopes := by
      intro position scope _ _ found entry
      have new := Array.mem_of_getElem? found
      rcases Array.mem_push.1 new with old | rfl
      · obtain ⟨before, inside, same⟩ := Array.mem_iff_getElem.1 old
        exact sound.scopes (Array.getElem?_eq_some_iff.2 ⟨inside, same⟩) entry
      · cases entry
    firstNamed := sound.firstNamed
    inputCache := sound.inputCache }
  pending := rfl
  edges edge := edge

theorem sound_start (name : String) (seed : UInt64) : (start name seed).Sound where
  network := Network.wellFormed_empty name
  readable _ member := absurd member List.not_mem_nil
  scopes found entry := by
    have member := Array.mem_of_getElem? found
    cases Array.mem_singleton.1 member
    cases entry
  firstNamed entry := by cases entry
  inputCache entry := by cases entry

end CompileState

end NetBlueprint
