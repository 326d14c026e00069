import Mathlib.Data.List.Perm.Basic
import NetBlueprint.Proofs.Compiler.Straight

/-!
Contract: where the connections of a straight program stand does not matter.

A straight program compiles exactly when every declaration stands for a kind and no endpoint carries
brackets. Its layers are then those of its declarations, and what an endpoint stands for in the end
depends on nothing but which names there are. So two programs with the same declarations and the
same connections, each in the same order, compile to the same graph.

Owns: when a straight program compiles, and to what.
-/

namespace NetBlueprint

namespace Name

/-- The name that an endpoint stands for among given names. -/
def reading? (names : List String) (endpoint : String) : Option String :=
  if endpoint ∈ names then some endpoint
  else if base endpoint ∈ names then some (base endpoint)
  else if stem (base endpoint) ∈ names ∧ stem (base endpoint) ≠ "" then some (stem (base endpoint))
  else none

private theorem mem_of_reading? {names : List String} {endpoint name : String}
    (reads : reading? names endpoint = some name) : name ∈ names := by
  unfold reading? at reads
  split at reads
  · rename_i here
    exact Option.some.inj reads ▸ here
  split at reads
  · rename_i here
    exact Option.some.inj reads ▸ here
  split at reads
  · rename_i here
    exact Option.some.inj reads ▸ here.1
  · cases reads

private theorem reading?_congr {names others : List String}
    (same : ∀ name, name ∈ names ↔ name ∈ others)
    (endpoint : String) : reading? names endpoint = reading? others endpoint := by
  simp only [reading?, same]

end Name

def Layer.label (layer : Layer) : String × LayerKind :=
  (layer.name, layer.kind)

/-- The names of a network are those of its layers apart from their edges. -/
theorem Network.names_eq (network : Network) : network.names = network.nodes.map Layer.name := by
  rw [names, nodes, List.map_map]
  rfl

def Network.EdgeNamed (network : Network) (source target : String) : Prop :=
  ∃ first last, network.Edge first last ∧ network.Named source first ∧ network.Named target last

namespace CompileState

variable {state : CompileState} {name : String} {id : LayerId}

/-- Where every name belongs to one layer, that layer is found. -/
theorem Sound.findId?_eq_some_iff (sound : state.Sound) (once : state.network.names.Nodup) :
    state.network.findId? name = some id ↔ state.network.Named name id := by
  refine ⟨sound.findId?, fun named => ?_⟩
  obtain ⟨found, isFound⟩ := Option.isSome_iff_exists.1 (Network.isSome_findId? named)
  have foundNamed := Network.named_iff_names.1 (sound.findId? isFound)
  have same : found = id := by
    have isNamed := Network.named_iff_names.1 named
    obtain ⟨foundInside, foundName⟩ := List.getElem?_eq_some_iff.1 foundNamed
    obtain ⟨inside, sameName⟩ := List.getElem?_eq_some_iff.1 isNamed
    exact (List.Nodup.getElem_inj_iff once).1 (foundName.trans sameName.symm)
  rw [isFound, same]

private theorem Sound.eq_findId? (sound : state.Sound) (once : state.network.names.Nodup)
    {found : Option LayerId} (right : ∀ id, found = some id → state.network.Named name id)
    (there : ∀ id, state.network.Named name id → found.isSome = true) :
    found = state.network.findId? name := by
  refine Option.ext fun id => ?_
  rw [sound.findId?_eq_some_iff once]
  refine ⟨right id, fun named => ?_⟩
  obtain ⟨other, isOther⟩ := Option.isSome_iff_exists.1 (there id named)
  have same := (sound.findId?_eq_some_iff once).2 (right other isOther)
  rw [isOther, ← same]
  exact (sound.findId?_eq_some_iff once).2 named

private theorem Sound.isSome_findId?_iff (sound : state.Sound) :
    (state.network.findId? name).isSome = true ↔ name ∈ state.network.names := by
  rw [Option.isSome_iff_exists, List.mem_iff_getElem?]
  constructor
  · rintro ⟨id, found⟩
    exact ⟨id, Network.named_iff_names.1 (sound.findId? found)⟩
  · rintro ⟨id, listed⟩
    exact Option.isSome_iff_exists.1 (Network.isSome_findId? (Network.named_iff_names.2 listed))

/-- Where every name belongs to one layer and is visible, an endpoint is read as a name and that
name is looked up. -/
theorem Sound.resolve_eq (sound : state.Sound) (once : state.network.names.Nodup)
    (visible : ∀ node ∈ state.network.nodes, ∃ id, (node.name, id) ∈ state.firstNamed)
    (scope : ScopeId) (endpoint : String) :
    state.resolve scope endpoint =
      (Name.reading? state.network.names endpoint).bind state.network.findId? := by
  have exact' (name : String) : state.resolveExact scope name = state.network.findId? name :=
    sound.eq_findId? once (fun _ => sound.resolveExact)
      fun _ => isSome_resolveExact_of_named scope
  have fallback (name : String) :
      state.resolveFallback scope name = state.network.findId? name := by
    refine sound.eq_findId? once (fun _ => sound.resolveFallback) ?_
    rintro id ⟨layer, found, rfl⟩
    obtain ⟨other, entry⟩ := visible layer.node
      (List.mem_map_of_mem (Network.mem_layers found))
    have listed : (state.firstNamed.lookup layer.name).isSome = true :=
      Table.isSome_lookup_iff.2 ⟨other, entry⟩
    rw [CompileState.resolveFallback, Option.isSome_or, listed, Bool.or_true]
  have absent {name : String} (isAbsent : name ∉ state.network.names) :
      state.network.findId? name = none := by
    rwa [← sound.isSome_findId?_iff, Bool.not_eq_true, Option.isSome_eq_false_iff,
      Option.isNone_iff_eq_none] at isAbsent
  have present {name : String} (isPresent : name ∈ state.network.names) (other : Option LayerId) :
      (state.network.findId? name).or other = state.network.findId? name := by
    obtain ⟨id, found⟩ := Option.isSome_iff_exists.1 (sound.isSome_findId?_iff.2 isPresent)
    rw [found, Option.some_or]
  simp only [CompileState.resolve, exact', fallback, Name.reading?]
  -- The endpoint is looked up as it stands, then without its suffix, then without digits.
  by_cases here : endpoint ∈ state.network.names
  · rw [if_pos here, present here, Option.bind_some]
  rw [if_neg here, absent here, Option.none_or]
  by_cases baseHere : Name.base endpoint ∈ state.network.names
  · have apart : Name.base endpoint ≠ endpoint := fun same => here (same ▸ baseHere)
    rw [if_pos baseHere, if_neg apart, present baseHere, Option.bind_some]
  rw [if_neg baseHere, absent baseHere, ite_self, Option.none_or]
  by_cases stemHere : Name.stem (Name.base endpoint) ∈ state.network.names ∧
      Name.stem (Name.base endpoint) ≠ ""
  · have apart : Name.stem (Name.base endpoint) ≠ Name.base endpoint :=
      fun same => baseHere (same ▸ stemHere.1)
    rw [if_pos stemHere, if_neg (by simpa [apart] using stemHere.2), Option.bind_some]
  · rw [if_neg stemHere, Option.bind_none]
    split
    · rfl
    · rename_i stripped
      refine absent fun found => stemHere ⟨found, fun empty => stripped ?_⟩
      rw [empty]
      simp

end CompileState

namespace Compile

variable {name : String} {seed : UInt64} {program : Instruction} {compiled : Compiled}

/-! ## What a straight program compiles to -/

/-- Before the first instruction nothing has become a layer. -/
theorem placed_of_prepare {before : CompileState} (straight : program.isStraight = true)
    (prepared : Runs (prepare name program) (CompileState.start name seed) () before) :
    Placed [] program.declarations before := by
  have quiet := isQuiet_prepare _ _ _ _ _ prepared
  have nodes : before.network.nodes = [] := quiet.nodes
  obtain ⟨registry, compiled, _⟩ := Books.mk.inj (books_of_prepare prepared)
  have nothing : before.compiledAhead = [] := compiled
  refine ⟨⟨quiet.leadsTo.sound (CompileState.sound_start name seed), ?_, ?_, ?_⟩, ?_, ?_, ?_⟩
  · intro source target edge
    obtain ⟨_, found, _⟩ := quiet.leadsTo.edges edge
    exact absurd (Network.lt_size_of_layer? found) (Nat.not_lt_zero source)
  · intro key instruction found
    exact Instruction.declared_of_prescan straight (registry ▸ found)
  · rw [nodes]
    exact fun _ => (absurd · List.not_mem_nil)
  · have none : LayerSpec.listedIn [] program.declarations = [] :=
      List.filter_eq_nil_iff.2 fun _ _ => Bool.false_ne_true
    rw [nodes, nothing, none]
    exact .refl _
  · rw [nothing]
    exact List.nodup_nil
  · rw [nothing]
    exact fun _ => (absurd · List.not_mem_nil)

/-- A finished run has placed every declaration and recorded every connection. -/
theorem RootOf.carries {root : Visit} (rootOf : RootOf name seed program compiled root)
    (straight : Straight program)
    (numeric : NumericEndpoints program.declarations program.connections) :
    Carries program.declarations program.connections [] [] root.before root.after := by
  have placed := placed_of_prepare straight.shape rootOf.prepared
  have straightforward := rootOf.faithful.straightforward [] []
  rw [rootOf.instruction, List.append_nil] at straightforward
  exact straightforward straight.shape straight.distinct straight.noAuto numeric placed

section Placing

variable {declared : List LayerSpec} {state : CompileState} (placed : Placed declared [] state)

include placed

/-- The layers are those that the declarations give, in some order. -/
theorem Placed.outlines : (state.network.nodes.map Layer.outline).Perm
    (declared.map LayerSpec.outline) := by
  have layers := placed.layers
  rwa [show LayerSpec.listedIn state.compiledAhead [] = [] from rfl, List.append_nil] at layers

/-- The names are those of the declarations, in some order. -/
theorem Placed.names : state.network.names.Perm (declared.map LayerSpec.name) := by
  have firsts := placed.outlines.map Prod.fst
  rw [List.map_map, List.map_map] at firsts
  rw [Network.names_eq]
  exact firsts

/-- Once all declarations have become layers, an endpoint reads as the name of the layer that it
finds, from whatever scope it is looked up. -/
theorem Placed.reading?_iff (distinct : Distinct declared) (scope : ScopeId)
    (endpoint reached : String) :
    Name.reading? (declared.map LayerSpec.name) endpoint = some reached ↔
      ∃ id, state.resolve scope endpoint = some id ∧ state.network.Named reached id := by
  have names := placed.names
  rw [placed.sound.resolve_eq (names.nodup_iff.2 distinct) placed.visible,
    ← Name.reading?_congr (fun _ => names.mem_iff) endpoint]
  constructor
  · intro reads
    obtain ⟨id, found⟩ := Option.isSome_iff_exists.1
      (placed.sound.isSome_findId?_iff.2 (Name.mem_of_reading? reads))
    exact ⟨id, by rw [reads, Option.bind_some, found], placed.sound.findId? found⟩
  · rintro ⟨id, resolved, layer, stored, rfl⟩
    obtain ⟨read, isRead, found⟩ := Option.bind_eq_some_iff.1 resolved
    obtain ⟨other, otherStored, rfl⟩ := placed.sound.findId? found
    cases stored.symm.trans otherStored
    exact isRead

end Placing

/-- The graph that declarations and connections describe. -/
structure Describes (declared : List LayerSpec) (connections : List (String × String))
    (network : Network) : Prop where
  layers : (network.nodes.map Layer.outline).Perm (declared.map LayerSpec.outline)
  edges : ∀ source target, network.EdgeNamed source target ↔
    ∃ connection ∈ connections,
      Name.reading? (declared.map LayerSpec.name) connection.1 = some source ∧
        Name.reading? (declared.map LayerSpec.name) connection.2 = some target

private theorem RootOf.describes {root : Visit} (rootOf : RootOf name seed program compiled root)
    (straight : Straight program)
    (numeric : NumericEndpoints program.declarations program.connections) :
    Describes program.declarations program.connections compiled.network := by
  have carries := rootOf.carries straight numeric
  have placed := carries.placed
  have binds := rootOf.binds
  have nodes := rootOf.nodes
  have named_iff {reached : String} {id : LayerId} :
      compiled.network.Named reached id ↔ root.after.network.Named reached id := by
    rw [Network.named_iff_names, Network.named_iff_names, Network.names_eq, nodes,
      ← Network.names_eq]
  have reads := placed.reading?_iff straight.distinct
  refine ⟨nodes ▸ placed.outlines, fun source target => ?_⟩
  have recorded := carries.recorded
  rw [CompileState.recorded, CompileState.recorded, rootOf.noPending, List.map_nil,
    List.nil_append] at recorded
  constructor
  · rintro ⟨first, last, edge, sourceNamed, targetNamed⟩
    rw [rootOf.network] at edge
    rcases binds.edges.1 edge with early | ⟨connection, pending, sourceFound, targetFound⟩
    · exact absurd early (placed.noEdges first last)
    · refine ⟨_, recorded ▸ List.mem_map_of_mem pending, ?_, ?_⟩
      · exact (reads connection.scope _ _).2 ⟨first, sourceFound, named_iff.1 sourceNamed⟩
      · exact (reads connection.scope _ _).2 ⟨last, targetFound, named_iff.1 targetNamed⟩
  · rintro ⟨endpoints, member, readsSource, readsTarget⟩
    rw [← recorded] at member
    obtain ⟨connection, pending, rfl⟩ := List.mem_map.1 member
    obtain ⟨first, sourceFound, sourceNamed⟩ := (reads connection.scope _ _).1 readsSource
    obtain ⟨last, targetFound, targetNamed⟩ := (reads connection.scope _ _).1 readsTarget
    refine ⟨first, last, ?_, named_iff.2 sourceNamed, named_iff.2 targetNamed⟩
    rw [rootOf.network]
    exact binds.edges.2 (.inr ⟨connection, pending, sourceFound, targetFound⟩)

/-! ## When a straight program compiles -/

def Declarable (declared : List LayerSpec) : Prop :=
  ∀ spec ∈ declared, ∃ kind, spec.layerKind = .ok kind

section Progress

variable {before after : CompileState} {done todo : List LayerSpec} {spec : LayerSpec}

private theorem exists_newLayer (isKind : ∃ kind, spec.layerKind = .ok kind)
    (before : CompileState) :
    ∃ after, Runs (newLayer spec) before () after := by
  obtain ⟨kind, isKind⟩ := isKind
  exact ⟨_, runs_newLayer.2 ⟨kind, isKind, rfl⟩⟩

/-- The next declaration can be compiled. -/
theorem Placed.exists_layer (placed : Placed done (spec :: todo) before)
    (distinct : Distinct (done ++ spec :: todo)) (isKind : ∃ kind, spec.layerKind = .ok kind) :
    ∃ after, Runs (layer spec) before () after := by
  rcases placed.layer_cases distinct with ⟨taken, _, _, runs_iff⟩ | ⟨_, runs_iff⟩
  · exact ⟨_, (runs_iff _).2 rfl⟩
  · obtain ⟨after, ran⟩ := exists_newLayer isKind before
    exact ⟨after, (runs_iff after).2 ran⟩

/-- An endpoint is compiled ahead where it has to be. -/
theorem Placed.exists_ensure (placed : Placed done todo before) (declarable : Declarable todo)
    (depth : Nat) (scope : ScopeId) (endpoint : String) :
    ∃ after, Runs (ensure (within (depth + 1)) scope endpoint) before () after := by
  obtain ⟨unknown, asked, asks⟩ := total_isUnknown scope endpoint before
  obtain ⟨isNone, rfl⟩ := runs_isUnknown.1 asks
  cases unknown with
  | false => exact ⟨asked, runs_bind.2 ⟨false, asked, asks, runs_pure.2 ⟨rfl, rfl⟩⟩⟩
  | true =>
      have unnamed :=
        CompileState.not_named_of_resolveExact (Option.isNone_iff_eq_none.1 isNone.symm)
      obtain ⟨turned, start, starts⟩ := total_startAhead endpoint asked
      cases turned with
      | none =>
          have nothing : Runs (ahead (within (depth + 1)) endpoint) asked () start :=
            runs_bind.2 ⟨none, start, starts, runs_pure.2 ⟨rfl, rfl⟩⟩
          exact ⟨start, runs_bind.2 ⟨true, asked, asks, nothing⟩⟩
      | some turned =>
          obtain ⟨instruction, saved⟩ := turned
          obtain ⟨_, _, spec, member, _, rfl, runs_iff⟩ := placed.of_turned unnamed starts
          obtain ⟨finish, adds⟩ := exists_newLayer (declarable spec member) start
          have compiles : Runs (within (depth + 1) (.layer spec)) start () finish :=
            (runs_iff finish).2 adds
          have whole : Runs (ahead (within (depth + 1)) endpoint) asked () _ :=
            runs_bind.2 ⟨_, start, starts, runs_bind.2 ⟨(), finish, compiles, runs_modify.2 rfl⟩⟩
          exact ⟨_, runs_bind.2 ⟨true, asked, asks, whole⟩⟩

/-- The next connection can be compiled. -/
theorem Placed.exists_connect {source target : String} (placed : Placed done todo before)
    (distinct : Distinct (done ++ todo)) (declarable : Declarable todo)
    (noAuto : Name.isAutoInput source = false)
    (numeric : NumericEndpoints (done ++ todo) [(source, target)]) (plain : Plain (source, target))
    (depth : Nat) :
    ∃ after, Runs (connect (within (depth + 1)) source target) before () after := by
  have starts : Runs (startConnect source target) before before.current before :=
    (runs_startConnect_iff (addsNoInput_of_noAuto noAuto _)).2 ⟨plain, rfl, rfl⟩
  obtain ⟨between, sourceRan⟩ := placed.exists_ensure declarable depth before.current source
  obtain ⟨inner, sourceEnsured, faithful⟩ := exists_ensured_of_runs sourceRan
  have sourceNumeric := fun spec member same =>
    numeric _ (List.mem_singleton_self _) spec member (.inl same)
  have sourcePlaced := (placed.of_ensured distinct sourceNumeric sourceEnsured faithful).1
  obtain ⟨ensured, targetRan⟩ := sourcePlaced.exists_ensure declarable depth before.current target
  obtain ⟨_, after, finishes⟩ := total_finishConnect before.current source target ensured
  exact ⟨after, runs_bind.2 ⟨_, before, starts, runs_bind.2 ⟨(), between, sourceRan,
    runs_bind.2 ⟨(), ensured, targetRan, finishes⟩⟩⟩⟩

/-- A straight instruction whose declarations and connections are in order can be compiled. -/
def Compiles (depth : Nat) (instruction : Instruction) : Prop :=
  ∀ (done todo : List LayerSpec) (before : CompileState), instruction.isStraight = true →
    Distinct (done ++ (instruction.declarations ++ todo)) →
    Declarable (instruction.declarations ++ todo) → NoAutoInput instruction.connections →
    NumericEndpoints (done ++ (instruction.declarations ++ todo)) instruction.connections →
    (∀ connection ∈ instruction.connections, Plain connection) →
    Placed done (instruction.declarations ++ todo) before →
    ∃ after, Runs (within depth instruction) before () after

private theorem exists_all {depth : Nat}
    (each : ∀ instruction : Instruction,
      instruction.nodeCount < depth → Compiles depth instruction) :
    ∀ (body : List Instruction) (done todo : List LayerSpec) (before : CompileState),
      Instruction.nodeCountAll body < depth → Instruction.isStraightAll body = true →
      Distinct (done ++ (Instruction.declarationsAll body ++ todo)) →
      Declarable (Instruction.declarationsAll body ++ todo) →
      NoAutoInput (Instruction.connectionsAll body) →
      NumericEndpoints (done ++ (Instruction.declarationsAll body ++ todo))
        (Instruction.connectionsAll body) →
      (∀ connection ∈ Instruction.connectionsAll body, Plain connection) →
      Placed done (Instruction.declarationsAll body ++ todo) before →
      ∃ after, Runs (all (within depth) body) before () after
  | [], _, _, before, _, _, _, _, _, _, _, _ => ⟨before, runs_pure.2 ⟨rfl, rfl⟩⟩
  | first :: rest, done, todo, before, deep, straight, distinct, declarable, noAuto, numeric, plain,
      placed => by
      rw [Instruction.nodeCountAll] at deep
      rw [Instruction.isStraightAll, Bool.and_eq_true] at straight
      rw [Instruction.declarationsAll, List.append_assoc] at distinct declarable numeric placed
      obtain ⟨firstNoAuto, restNoAuto⟩ := List.forall_mem_append.1 noAuto
      obtain ⟨firstNumeric, restNumeric⟩ := numeric.parts
      obtain ⟨firstPlain, restPlain⟩ := List.forall_mem_append.1 plain
      obtain ⟨between, firstRan⟩ := each first (by omega) done _ before straight.1 distinct
        declarable firstNoAuto firstNumeric firstPlain placed
      obtain ⟨visit, faithful, rfl, rfl, rfl⟩ := exists_visit_of_within firstRan
      have carries :=
        faithful.straightforward done _ straight.1 distinct firstNoAuto firstNumeric placed
      obtain ⟨after, restRan⟩ := exists_all each rest _ todo visit.after (by omega) straight.2
        (by rwa [List.append_assoc]) (List.forall_mem_append.1 declarable).2 restNoAuto restNumeric
        restPlain carries.placed
      exact ⟨after, runs_bind.2 ⟨(), visit.after, firstRan, restRan⟩⟩

private theorem compiles_within : ∀ (depth : Nat) (instruction : Instruction),
    instruction.nodeCount < depth → Compiles depth instruction
  | 0, _, deep => absurd deep (Nat.not_lt_zero _)
  | depth + 1, instruction, deep => by
      intro done todo before straight distinct declarable noAuto numeric plain placed
      have inner (body : List Instruction) (shallower : Instruction.nodeCountAll body < depth) :=
        exists_all (compiles_within depth) body done todo before shallower
      cases instruction with
      | program body | block body =>
          rw [Instruction.nodeCount] at deep
          exact inner body (by omega) straight distinct declarable noAuto numeric plain placed
      | expand group annotations body =>
          rw [Instruction.nodeCount] at deep
          obtain ⟨_, start, opens⟩ := total_startExpand group annotations body.length before
          have started := placed.of_quiet (isQuiet_startExpand _ _ _ _ _ _ opens)
            (keeps_startExpand steady_books _ _ _ _ _ _ opens)
          obtain ⟨after, ran⟩ := exists_all (compiles_within depth) body done todo start (by omega)
            straight distinct declarable noAuto numeric plain started
          exact ⟨after, runs_bind.2 ⟨(), start, opens, ran⟩⟩
      | layer spec =>
          exact placed.exists_layer distinct (declarable spec List.mem_cons_self)
      | connect source target =>
          rw [Instruction.nodeCount] at deep
          obtain ⟨lower, rfl⟩ : ∃ lower, depth = lower + 1 := ⟨depth - 1, by omega⟩
          exact placed.exists_connect distinct declarable (noAuto _ (List.mem_singleton_self _))
            numeric (plain _ (List.mem_singleton_self _)) lower
      | _ => cases straight

end Progress

/-- A program compiles if its instructions do: the final wiring never fails. -/
theorem exists_compiled_of_build {after : CompileState}
    (built : Runs (build name program) (CompileState.start name seed) () after) :
    ∃ compiled, compile name seed program = .ok compiled := by
  rw [compile, run, show (build name program).run (CompileState.start name seed) = _ from built]
  exact ⟨_, rfl⟩

/-- A straight program compiles exactly when every declaration stands for a kind and no endpoint
carries brackets. -/
theorem compiles_iff (straight : Straight program)
    (numeric : NumericEndpoints program.declarations program.connections) :
    (∃ compiled, compile name seed program = .ok compiled) ↔
      Declarable program.declarations ∧
        ∀ connection ∈ program.connections, Plain connection := by
  constructor
  · rintro ⟨compiled, compiles⟩
    obtain ⟨root, rootOf⟩ := exists_rootOf compiles
    refine ⟨fun spec member => ?_, (rootOf.carries straight numeric).plain⟩
    have layers := (rootOf.describes straight numeric).layers
    obtain ⟨node, _, same⟩ := List.mem_map.1 (layers.symm.subset (List.mem_map_of_mem member))
    exact ⟨node.kind, (congrArg Prod.snd same).symm⟩
  · rintro ⟨declarable, plain⟩
    obtain ⟨_, before, prepares⟩ := total_prepare name program (CompileState.start name seed)
    have placed := placed_of_prepare straight.shape prepares
    have deep : program.nodeCount < depthFor program := by
      rw [depthFor, Nat.add_mul, Nat.mul_add]
      omega
    have compiles := compiles_within _ program deep [] [] before straight.shape
    rw [List.append_nil] at compiles
    obtain ⟨after, ran⟩ :=
      compiles straight.distinct declarable straight.noAuto numeric plain placed
    exact exists_compiled_of_build (runs_bind.2 ⟨(), before, prepares, ran⟩)

/-! ## Moving connections -/

/-- A program that declares the same layers in the same order as another one and connects the same
endpoints in the same order, with the connections at other places. -/
structure Rearranges (other program : Instruction) : Prop where
  shape : other.isStraight = true
  declarations : other.declarations = program.declarations
  connections : other.connections = program.connections

/-- A program that rearranges a straight one is straight. -/
theorem Rearranges.straight {other : Instruction} (rearranges : Rearranges other program)
    (straight : Straight program) : Straight other where
  shape := rearranges.shape
  distinct := rearranges.declarations ▸ straight.distinct
  noAuto := rearranges.connections ▸ straight.noAuto

private theorem labels_perm {first second : Network} {specs : List LayerSpec}
    (one : (first.nodes.map Layer.outline).Perm (specs.map LayerSpec.outline))
    (other : (second.nodes.map Layer.outline).Perm (specs.map LayerSpec.outline)) :
    (first.nodes.map Layer.label).Perm (second.nodes.map Layer.label) := by
  have injective : Function.Injective
      fun label : String × LayerKind =>
        (label.1, (.ok label.2 : Except CompileFault LayerKind)) := by
    rintro ⟨_, _⟩ ⟨_, _⟩ same
    cases same
    rfl
  refine (List.map_perm_map_iff injective).1 ?_
  rw [List.map_map, List.map_map]
  exact one.trans other.symm

/-- Where the connections of a straight program stand does not change the graph, unless one of them
names a layer whose dropout rate is not a number. Two programs that differ in nothing else both fail,
or they compile to the same layers, in some order, with the same edges between layers of the same
names. -/
theorem connections_placed_anywhere {other : Instruction} (straight : Straight program)
    (numeric : NumericEndpoints program.declarations program.connections)
    (rearranges : Rearranges other program) (name : String) (seed : UInt64) :
    (∃ error otherError, compile name seed program = .error error ∧
        compile name seed other = .error otherError) ∨
      ∃ compiled otherCompiled, compile name seed program = .ok compiled ∧
        compile name seed other = .ok otherCompiled ∧
        (compiled.network.nodes.map Layer.label).Perm
          (otherCompiled.network.nodes.map Layer.label) ∧
        ∀ source target, compiled.network.EdgeNamed source target ↔
          otherCompiled.network.EdgeNamed source target := by
  have otherStraight := rearranges.straight straight
  have otherNumeric : NumericEndpoints other.declarations other.connections := by
    rwa [rearranges.declarations, rearranges.connections]
  have same : (∃ compiled, compile name seed program = .ok compiled) ↔
      ∃ compiled, compile name seed other = .ok compiled := by
    rw [compiles_iff straight numeric, compiles_iff otherStraight otherNumeric,
      rearranges.declarations, rearranges.connections]
  cases compiles : compile name seed program with
  | error error =>
      cases otherCompiles : compile name seed other with
      | error otherError => exact .inl ⟨error, otherError, rfl, rfl⟩
      | ok otherCompiled =>
          obtain ⟨_, absurdly⟩ := same.2 ⟨otherCompiled, otherCompiles⟩
          cases compiles.symm.trans absurdly
  | ok compiled =>
      obtain ⟨otherCompiled, otherCompiles⟩ := same.1 ⟨compiled, compiles⟩
      obtain ⟨root, rootOf⟩ := exists_rootOf compiles
      obtain ⟨otherRoot, otherRootOf⟩ := exists_rootOf otherCompiles
      have describes := rootOf.describes straight numeric
      have otherDescribes := otherRootOf.describes otherStraight otherNumeric
      rw [rearranges.declarations, rearranges.connections] at otherDescribes
      refine .inr ⟨compiled, otherCompiled, rfl, otherCompiles,
        labels_perm describes.layers otherDescribes.layers, fun source target => ?_⟩
      rw [describes.edges, otherDescribes.edges]

/-- Three layers and two connections, the first of which stands before its layers. -/
def connectedEarly : Instruction :=
  .program [.connect "h" "y", .block [sizedLayer "input" "x" 2, sizedLayer "dense" "h" 3],
    .expand none [] [sizedLayer "output" "y" 1, .connect "x" "h"]]

/-- The same layers and connections, with the connections at the end. -/
def connectedLate : Instruction :=
  .program [.block [sizedLayer "input" "x" 2, sizedLayer "dense" "h" 3],
    .expand none [] [sizedLayer "output" "y" 1], .connect "h" "y", .connect "x" "h"]

/-- Connecting two layers early puts them first, and changes nothing else. -/
theorem connectedEarly_as_connectedLate :
    Straight connectedEarly ∧
      NumericEndpoints connectedEarly.declarations connectedEarly.connections ∧
      Rearranges connectedLate connectedEarly ∧
      ∃ early late, compile "net" 0 connectedEarly = .ok early ∧
        compile "net" 0 connectedLate = .ok late ∧
        early.network.names = ["h", "y", "x"] ∧ late.network.names = ["x", "h", "y"] ∧
        (early.network.nodes.map Layer.label).Perm (late.network.nodes.map Layer.label) ∧
        ∀ source target, early.network.EdgeNamed source target ↔
          late.network.EdgeNamed source target := by
  have straight : Straight connectedEarly := ⟨by decide, by decide, by decide⟩
  have numeric : NumericEndpoints connectedEarly.declarations connectedEarly.connections := by
    decide
  have rearranges : Rearranges connectedLate connectedEarly := ⟨by decide, rfl, by decide⟩
  have earlyNames : (compile "net" 0 connectedEarly).toOption.any
      (fun compiled => compiled.network.names == ["h", "y", "x"]) = true := by decide +kernel
  have lateNames : (compile "net" 0 connectedLate).toOption.any
      (fun compiled => compiled.network.names == ["x", "h", "y"]) = true := by decide +kernel
  obtain ⟨early, compilesEarly, early_eq⟩ := exists_compiled earlyNames
  obtain ⟨late, compilesLate, late_eq⟩ := exists_compiled lateNames
  refine ⟨straight, numeric, rearranges, ?_⟩
  rcases connections_placed_anywhere straight numeric rearranges "net" 0 with
    ⟨_, _, fails, _⟩ | ⟨_, _, isEarly, isLate, layers, edges⟩
  · cases compilesEarly.symm.trans fails
  · cases compilesEarly.symm.trans isEarly
    cases compilesLate.symm.trans isLate
    exact ⟨early, late, compilesEarly, compilesLate, eq_of_beq early_eq, eq_of_beq late_eq, layers,
      edges⟩

private def unequalLayer (name : String) : Instruction :=
  match sizedLayer "dense" name 3 with
  | .layer spec => .layer { spec with dropout := some (0.0 / 0.0) }
  | other => other

/-- A connection that names a layer with such a rate and stands before it. -/
def unequalEarly : Instruction :=
  .program [sizedLayer "input" "x" 2, .connect "h" "y", unequalLayer "h",
    sizedLayer "output" "y" 1]

def unequalLate : Instruction :=
  .program [sizedLayer "input" "x" 2, unequalLayer "h", sizedLayer "output" "y" 1,
    .connect "h" "y"]

/-- A layer whose dropout rate is not a number is compiled ahead and once more in its place, since
its declaration does not equal itself. So the place of the connection does make a difference. -/
theorem unequal_layer_doubled :
    Straight unequalEarly ∧ Rearranges unequalLate unequalEarly ∧
      ∃ early late, compile "net" 0 unequalEarly = .ok early ∧
        compile "net" 0 unequalLate = .ok late ∧
        early.network.names = ["x", "h", "y", "h"] ∧ late.network.names = ["x", "h", "y"] ∧
        ¬ (early.network.nodes.map Layer.label).Perm (late.network.nodes.map Layer.label) := by
  have earlyNames : (compile "net" 0 unequalEarly).toOption.any
      (fun compiled => compiled.network.names == ["x", "h", "y", "h"]) = true := by decide +kernel
  have lateNames : (compile "net" 0 unequalLate).toOption.any
      (fun compiled => compiled.network.names == ["x", "h", "y"]) = true := by decide +kernel
  obtain ⟨early, compilesEarly, early_eq⟩ := exists_compiled earlyNames
  obtain ⟨late, compilesLate, late_eq⟩ := exists_compiled lateNames
  have earlyIs := eq_of_beq early_eq
  have lateIs := eq_of_beq late_eq
  refine ⟨⟨by decide, by decide, by decide⟩, ⟨by decide, rfl, by decide⟩, early, late,
    compilesEarly, compilesLate, earlyIs, lateIs, fun same => ?_⟩
  have lengths := same.length_eq
  rw [List.length_map, List.length_map, ← List.length_map Layer.name, ← Network.names_eq, earlyIs,
    ← List.length_map Layer.name, ← Network.names_eq, lateIs] at lengths
  cases lengths

end Compile

end NetBlueprint
