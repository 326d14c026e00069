import NetBlueprint.Proofs.Compiler.Growth

/-!
Contract: the final wiring.

Wiring adds edges and nothing else, so it never changes what an endpoint stands for. It adds
exactly the edges between the layers that the endpoints of the recorded connections stand for, and
a connection is skipped only where an endpoint stands for none.
-/

namespace NetBlueprint.Compile

def Resolved (state : CompileState) (connection : PendingConnect) (source target : LayerId) :
    Prop :=
  state.resolve connection.scope connection.source = some source ∧
    state.resolve connection.scope connection.target = some target

/-- The second state is the first with the given connections wired. -/
structure Binds (connections : List PendingConnect) (before after : CompileState) : Prop where
  resolve : ∀ scope endpoint, after.resolve scope endpoint = before.resolve scope endpoint
  grows : before.network.GrowsTo after.network
  sound : after.Sound
  nodes : after.network.nodes = before.network.nodes
  issues : after.network.issues = before.network.issues
  edges : ∀ {source target}, after.network.Edge source target ↔
    before.network.Edge source target ∨
      ∃ connection ∈ connections, Resolved before connection source target

private theorem resolve_congr {first second : CompileState} (scopes : second.scopes = first.scopes)
    (firstNamed : second.firstNamed = first.firstNamed)
    (nodes : second.network.nodes = first.network.nodes) (scope : ScopeId) (endpoint : String) :
    second.resolve scope endpoint = first.resolve scope endpoint := by
  have chains : ∀ budget id, second.chainWithin budget id = first.chainWithin budget id := by
    intro budget
    induction budget with
    | zero => exact fun _ => rfl
    | succ budget inductionHypothesis =>
        intro id
        simp only [CompileState.chainWithin, scopes, inductionHypothesis]
  have chain : second.chain scope = first.chain scope := by
    rw [CompileState.chain, CompileState.chain, scopes, chains]
  have findId? : ∀ name, second.network.findId? name = first.network.findId? name := by
    intro name
    rw [Network.findId?_eq, Network.findId?_eq, nodes]
  simp only [CompileState.resolve, CompileState.resolveExact, CompileState.resolveFallback,
    CompileState.lookupChain, chain, findId?, firstNamed]

section One

variable {connection : PendingConnect} {before : CompileState}

private theorem binds_nothing (sound : before.Sound) : Binds [] before before :=
  ⟨fun _ _ => rfl, .refl _, sound, rfl, rfl, by simp⟩

private theorem binds_unresolved (sound : before.Sound)
    (unresolved : ∀ source target, ¬ Resolved before connection source target) :
    Binds [connection] before before := by
  refine ⟨fun _ _ => rfl, .refl _, sound, rfl, rfl, ?_⟩
  intro source target
  simp only [List.mem_singleton, exists_eq_left]
  rw [or_iff_left (unresolved source target)]

private theorem binds_logged {after : CompileState} {connections : List PendingConnect}
    {line : String} (binds : Binds connections before after) :
    Binds connections before (after.logged line) := by
  have same (scope : ScopeId) (endpoint : String) :
      (after.logged line).resolve scope endpoint = after.resolve scope endpoint := by
    apply resolve_congr <;> rfl
  exact ⟨fun scope endpoint => (same scope endpoint).trans (binds.resolve scope endpoint),
    binds.grows, { binds.sound with }, binds.nodes, binds.issues, binds.edges⟩

private theorem binds_connected (sound : before.Sound) {source target : LayerId} {isNew : Bool}
    {network : Network} (resolved : Resolved before connection source target)
    (connected : before.network.connect source target = .ok (isNew, network)) :
    Binds [connection] before { before with network } := by
  have connects := Network.connects_of_connect connected
  refine ⟨resolve_congr rfl rfl connects.nodes, connects.grows,
    CompileState.sound_network sound connects.grows (sound.network.connect connected)
      (sound.readable.of_nodes connects.nodes),
    connects.nodes, connects.issues, ?_⟩
  intro first second
  simp only [List.mem_singleton, exists_eq_left]
  constructor
  · intro edge
    rcases connects.noOther edge with old | ⟨rfl, rfl⟩
    · exact .inl old
    · exact .inr resolved
  · rintro (old | ⟨sameSource, sameTarget⟩)
    · exact connects.grows.edges old
    · rw [resolved.1] at sameSource
      rw [resolved.2] at sameTarget
      cases sameSource
      cases sameTarget
      exact connects.connected

/-- Layers that endpoints stand for can be connected. -/
theorem Resolved.exists_connect {source target : LayerId} (sound : before.Sound)
    (resolved : Resolved before connection source target) :
    ∃ isNew network, before.network.connect source target = .ok (isNew, network) := by
  obtain ⟨_, _, sourceNamed⟩ := sound.resolve resolved.1
  obtain ⟨_, _, targetNamed⟩ := sound.resolve resolved.2
  exact Network.exists_connect (Network.lt_size_of_named sourceNamed)
    (Network.lt_size_of_named targetNamed)

private theorem binds_bindOne (connection : PendingConnect) (sound : before.Sound) (tally : Tally) :
    Binds [connection] before (bindOne connection tally before).2 := by
  unfold bindOne
  split
  · rename_i source target sourceFound targetFound
    have resolved : Resolved before connection source target := ⟨sourceFound, targetFound⟩
    obtain ⟨isNew, network, connected⟩ := resolved.exists_connect sound
    rw [connected]
    dsimp only
    split
    · exact binds_logged (binds_connected sound resolved connected)
    · exact binds_connected sound resolved connected
  · rename_i unresolved
    exact binds_unresolved sound fun source target resolved =>
      unresolved source target resolved.1 resolved.2

/-- A connection whose endpoints stand for layers is not skipped. -/
theorem skipped_bindOne (sound : before.Sound) {tally : Tally} {source target : LayerId}
    (resolved : Resolved before connection source target) :
    (bindOne connection tally before).1.skipped = tally.skipped := by
  obtain ⟨isNew, network, connected⟩ := resolved.exists_connect sound
  unfold bindOne
  rw [resolved.1, resolved.2]
  dsimp only
  rw [connected]

end One

theorem Binds.trans {first second third : CompileState} {earlier later : List PendingConnect}
    (one : Binds earlier first second) (other : Binds later second third) :
    Binds (earlier ++ later) first third where
  resolve scope endpoint := (other.resolve scope endpoint).trans (one.resolve scope endpoint)
  grows := one.grows.trans other.grows
  sound := other.sound
  nodes := other.nodes.trans one.nodes
  issues := other.issues.trans one.issues
  edges := by
    intro source target
    have same : ∀ connection, Resolved second connection source target ↔
        Resolved first connection source target := by
      intro connection
      rw [Resolved, Resolved, one.resolve, one.resolve]
    simp only [other.edges, one.edges, same, List.mem_append, or_and_right, exists_or, or_assoc]

/-- Wiring connections one after the other wires all of them. -/
theorem binds_bindEach :
    ∀ (connections : List PendingConnect) (tally : Tally) {state : CompileState},
      state.Sound → Binds connections state (bindEach connections (tally, state)).2
  | [], _, _, sound => binds_nothing sound
  | connection :: rest, tally, state, sound => by
      have first := binds_bindOne connection sound tally
      have following := binds_bindEach rest (bindOne connection tally state).1 first.sound
      exact first.trans following

/-- When the endpoints of all connections stand for layers, none is skipped. -/
theorem skipped_bindEach :
    ∀ (connections : List PendingConnect) (tally : Tally) {state : CompileState}, state.Sound →
      (∀ connection ∈ connections, ∃ source target, Resolved state connection source target) →
      (bindEach connections (tally, state)).1.skipped = tally.skipped
  | [], _, _, _, _ => rfl
  | connection :: rest, tally, state, sound, resolved => by
      obtain ⟨source, target, first⟩ := resolved connection List.mem_cons_self
      have binds := binds_bindOne connection sound tally
      refine (skipped_bindEach rest (bindOne connection tally state).1 binds.sound ?_).trans
        (skipped_bindOne sound first)
      intro other member
      obtain ⟨otherSource, otherTarget, following⟩ := resolved other (List.mem_cons_of_mem _ member)
      refine ⟨otherSource, otherTarget, ?_⟩
      rw [Resolved, binds.resolve, binds.resolve]
      exact following

/-- The final wiring wires every recorded connection whose endpoints stand for layers. -/
theorem binds_bindAll {state : CompileState} (sound : state.Sound) :
    Binds state.pending.toList state (bindAll state) :=
  binds_logged (binds_bindEach state.pending.toList ⟨0, 0⟩ sound)

end NetBlueprint.Compile
