import NetBlueprint.Proofs.Compiler.Accounting
import NetBlueprint.Proofs.Compiler.Connections
import NetBlueprint.Proofs.Compiler.SuffixedTrees

/-!
Contract: the run of a suffixed tree follows the run of the plain one.

From states that differ in a suffix on the names of layers, a tree and its suffixed tree lead to
states that do so again, as long as every connection of the plain tree stands after its layers.
Connections without the suffix name no layer any more: they are recorded with an error.

Owns: paired states, and the run that follows another.
-/

namespace NetBlueprint

def EndsIn (suffix text : String) : Prop :=
  suffix.toList <:+ text.toList

def Layer.suffixed (suffix : String) (layer : Layer) : Layer :=
  { layer with name := layer.name ++ suffix }

private theorem Instruction.nodeCount_pos (instruction : Instruction) :
    0 < instruction.nodeCount := by
  cases instruction <;> rw [nodeCount] <;> omega

private theorem lookup_suffixed (suffix name : String) : ∀ entries : List (String × LayerId),
    (entries.map fun entry => (entry.1 ++ suffix, entry.2)).lookup (name ++ suffix) =
      entries.lookup name
  | [] => rfl
  | (key, id) :: rest => by
      have same : (name ++ suffix == key ++ suffix) = (name == key) := by
        rw [Bool.eq_iff_iff, beq_iff_eq, beq_iff_eq, String.append_left_inj]
      rw [List.map_cons, List.lookup_cons, List.lookup_cons, same, lookup_suffixed suffix name rest]

/-- The last layers made visible at the root, the last first. -/
def CompileState.rootEntries (state : CompileState) : List (String × LayerId) :=
  match state.scopes[0]? with
  | some scope => scope.entries
  | none => []

namespace Compile

/-- A state of a run that stays in the root scope, compiles nothing ahead, and has wired nothing. -/
structure Flat (state : CompileState) : Prop where
  sound : state.Sound
  noEdges : ∀ source target, ¬ state.network.Edge source target
  nothingAhead : state.compiledAhead = []
  inRoot : state.current = 0
  scopes : state.scopes = #[⟨none, state.rootEntries⟩]

namespace Flat

variable {state before after : CompileState}

/-- At the root a name stands for the last layer made visible under it, or for the first of that
name. -/
theorem resolveExact_eq (flat : Flat state) (name : String) :
    state.resolveExact 0 name =
      (state.rootEntries.lookup name).or (state.network.findId? name) := by
  have chain : state.chain 0 = [⟨none, state.rootEntries⟩] := by
    rw [CompileState.chain, flat.scopes]
    rw [show (#[(⟨none, state.rootEntries⟩ : Scope)] : Array Scope).size = 1 from rfl,
      CompileState.chainWithin, flat.scopes]
    rfl
  rw [CompileState.resolveExact, CompileState.lookupChain, chain, List.findSome?_singleton]

theorem logged (flat : Flat state) (line : String) : Flat (state.logged line) where
  sound := (state.quiet_logged line).leadsTo.sound flat.sound
  noEdges := flat.noEdges
  nothingAhead := flat.nothingAhead
  inRoot := flat.inRoot
  scopes := flat.scopes

private theorem rootEntries_withLayer (flat : Flat state) (name : String) (kind : LayerKind) :
    (state.withLayer name kind).rootEntries = (name, state.network.size) :: state.rootEntries ∧
      (state.withLayer name kind).scopes =
        #[⟨none, (name, state.network.size) :: state.rootEntries⟩] := by
  have scopes : (state.withLayer name kind).scopes =
      #[⟨none, (name, state.network.size) :: state.rootEntries⟩] := by
    simp [CompileState.withLayer, CompileState.registered, flat.inRoot, flat.scopes]
  refine ⟨?_, scopes⟩
  rw [CompileState.rootEntries, scopes]
  rfl

theorem withLayer (flat : Flat state) (name : String) {kind : LayerKind} (leaf : kind.IsLeaf) :
    Flat (state.withLayer name kind) := by
  have leads := CompileState.leadsTo_withLayer name
    (Network.accepts_of_isLeaf leaf state.network)
  obtain ⟨entries, scopes⟩ := flat.rootEntries_withLayer name kind
  exact {
    sound := leads.sound flat.sound
    noEdges := fun source target edge => flat.noEdges source target (leads.edges edge)
    nothingAhead := flat.nothingAhead
    inRoot := flat.inRoot
    scopes := by rw [entries, scopes] }

end Flat

/-! ## Paired states -/

/-- A connection that was recorded after its layers, and its counterpart. -/
structure RecordedBeside (suffixing : Suffixing) (network : Network)
    (plain suffixed : PendingConnect) : Prop where
  scopes : plain.scope = 0 ∧ suffixed.scope = 0
  source : suffixing.Connects plain.source suffixed.source
  target : suffixing.Connects plain.target suffixed.target
  sourceNamed : ∃ id, network.Named plain.source id
  targetNamed : ∃ id, network.Named plain.target id

def BothEndIn (suffix : String) (connection : PendingConnect) : Prop :=
  EndsIn suffix connection.source ∧ EndsIn suffix connection.target

/-- Two states that differ in a suffix on the names of layers. There is an error exactly when some
connection went without the suffix. -/
structure Paired (suffixing : Suffixing) (plain suffixed : CompileState) : Prop where
  plainFlat : Flat plain
  suffixedFlat : Flat suffixed
  nodes : suffixed.network.nodes = plain.network.nodes.map (Layer.suffixed suffixing.tail.text)
  entries : suffixed.rootEntries =
    plain.rootEntries.map fun entry => (entry.1 ++ suffixing.tail.text, entry.2)
  clean : ∀ node ∈ plain.network.nodes, Name.IsClean node.name.toList
  templates : ∀ {name instruction}, suffixed.registry.lookup name = some instruction →
    ∃ declared parameters body, instruction = .templateDef declared parameters body
  pending : List.Forall₂ (RecordedBeside suffixing plain.network) plain.pending.toList
    suffixed.pending.toList
  issues : suffixed.network.issues = [] ↔
    ∀ connection ∈ suffixed.pending.toList, BothEndIn suffixing.tail.text connection

namespace Paired

variable {suffixing : Suffixing} {plain suffixed : CompileState}

/-- Paired states have as many layers. -/
theorem size_eq (paired : Paired suffixing plain suffixed) :
    suffixed.network.size = plain.network.size := by
  rw [← Network.length_nodes, paired.nodes, List.length_map, Network.length_nodes]

theorem logged (paired : Paired suffixing plain suffixed) (line other : String) :
    Paired suffixing (plain.logged line) (suffixed.logged other) :=
  { paired with
    plainFlat := paired.plainFlat.logged line
    suffixedFlat := paired.suffixedFlat.logged other }

theorem isClean_of_named (paired : Paired suffixing plain suffixed) {name : String} {id : LayerId}
    (named : plain.network.Named name id) : Name.IsClean name.toList := by
  obtain ⟨layer, found, rfl⟩ := named
  exact paired.clean layer.node
    (List.mem_map_of_mem (Network.mem_layers found))

/-- Every layer of the second state has the suffix. -/
theorem endsIn_of_named (paired : Paired suffixing plain suffixed) {name : String} {id : LayerId}
    (named : suffixed.network.Named name id) : EndsIn suffixing.tail.text name := by
  obtain ⟨layer, found, rfl⟩ := named
  have member : layer.node ∈ suffixed.network.nodes :=
    List.mem_map_of_mem (Network.mem_layers found)
  rw [paired.nodes] at member
  obtain ⟨other, _, same⟩ := List.mem_map.1 member
  have names : other.name ++ suffixing.tail.text = layer.name := congrArg Layer.name same
  rw [EndsIn, ← names, String.toList_append]
  exact List.suffix_append _ _

/-- A name with the suffix stands for the layer that the plain name stands for. -/
theorem resolveExact_eq (paired : Paired suffixing plain suffixed) (name : String) :
    suffixed.resolveExact 0 (name ++ suffixing.tail.text) = plain.resolveExact 0 name := by
  have found : suffixed.network.findId? (name ++ suffixing.tail.text) =
      plain.network.findId? name := by
    have same : (fun node : Layer => node.name == name ++ suffixing.tail.text) ∘
        Layer.suffixed suffixing.tail.text = fun node => node.name == name := by
      funext node
      rw [Bool.eq_iff_iff, Function.comp_apply, beq_iff_eq, beq_iff_eq]
      exact String.append_left_inj _
    rw [Network.findId?_eq, Network.findId?_eq, paired.nodes, List.find?_map, same, Option.map_map]
    rfl
  rw [paired.suffixedFlat.resolveExact_eq, paired.plainFlat.resolveExact_eq, paired.entries,
    lookup_suffixed, found]

end Paired

/-- A text without two underscores in a row does not end in the suffix. -/
theorem not_endsIn_of_single (tail : Name.Tail) {text : String}
    (single : Name.beforeSuffix? text.toList = none) : ¬ EndsIn tail.text text := by
  rintro ⟨front, same⟩
  obtain ⟨rest, opens⟩ := tail.opens
  rw [← same] at single
  have last := Name.beforeSuffix?_of_append single
  rw [opens] at last
  cases last

namespace Paired

variable {suffixing : Suffixing} {plain suffixed : CompileState} {name other : String}

/-- An endpoint without the suffix stands for no layer any more. -/
theorem resolve_eq_none (paired : Paired suffixing plain suffixed) (scope : ScopeId)
    (single : Name.beforeSuffix? name.toList = none) : suffixed.resolve scope name = none := by
  rw [Option.eq_none_iff_forall_ne_some]
  intro id found
  obtain ⟨spelled, spells, named⟩ := paired.suffixedFlat.sound.resolve found
  have baseSame : Name.base name = name := by
    rw [Name.base, Name.withoutSuffix_of_single single, String.ofList_toList]
  have starts : spelled.toList <+: name.toList := by
    have digits : (Name.stem name).toList <+: name.toList := by
      rw [Name.stem, String.toList_ofList]
      exact Name.withoutDigits_isPrefix name.toList
    rcases spells with same | same | same
    · exact same ▸ List.prefix_refl _
    · exact (same.trans baseSame) ▸ List.prefix_refl _
    · rwa [same, baseSame]
  exact not_endsIn_of_single suffixing.tail (Name.beforeSuffix?_of_isPrefix starts single)
    (paired.endsIn_of_named named)

/-- An endpoint of a connection after its layers is found exactly when it has the suffix. -/
theorem isSome_resolve_iff (paired : Paired suffixing plain suffixed)
    (connects : suffixing.Connects name other) (named : ∃ id, plain.network.Named name id) :
    (suffixed.resolve 0 other).isSome = true ↔ EndsIn suffixing.tail.text other := by
  obtain ⟨id, named⟩ := named
  rcases connects with bears | ⟨_, rfl⟩
  · refine iff_of_true ?_ ?_
    · have known := CompileState.isSome_resolveExact_of_named 0 named
      rw [← paired.resolveExact_eq, ← bears.same] at known
      rw [CompileState.resolve, Option.isSome_or, known, Bool.true_or]
    · rw [bears.same, EndsIn, String.toList_append]
      exact List.suffix_append _ _
  · have single := (paired.isClean_of_named named).single
    refine iff_of_false ?_ (not_endsIn_of_single suffixing.tail single)
    rw [paired.resolve_eq_none 0 single]
    exact Bool.false_ne_true

/-! ## Declarations -/

/-- The same layer is added on both sides, on one with the suffix. -/
theorem withLayer (paired : Paired suffixing plain suffixed) (bears : suffixing.Bears name other)
    {kind : LayerKind} (leaf : kind.IsLeaf) :
    Paired suffixing (plain.withLayer name kind) (suffixed.withLayer other kind) where
  plainFlat := paired.plainFlat.withLayer name leaf
  suffixedFlat := paired.suffixedFlat.withLayer other leaf
  nodes := by
    rw [CompileState.nodes_withLayer, CompileState.nodes_withLayer, paired.nodes, List.map_append,
      paired.size_eq, bears.same]
    rfl
  entries := by
    rw [(paired.plainFlat.rootEntries_withLayer name kind).1,
      (paired.suffixedFlat.rootEntries_withLayer other kind).1, paired.entries, paired.size_eq,
      bears.same]
    rfl
  clean node member := by
    rw [CompileState.nodes_withLayer] at member
    rcases List.mem_append.1 member with old | new
    · exact paired.clean node old
    · cases List.mem_singleton.1 new
      exact bears.clean
  templates := paired.templates
  pending := by
    have grows := (CompileState.leadsTo_withLayer name
      (Network.accepts_of_isLeaf leaf plain.network)).grows.network
    exact paired.pending.imp fun one another beside => { beside with
      sourceNamed := beside.sourceNamed.imp fun _ => grows.named
      targetNamed := beside.targetNamed.imp fun _ => grows.named }
  issues := paired.issues

/-- A declaration leads from paired states to paired states. -/
theorem layer {spec suffixedSpec : LayerSpec} {after : CompileState}
    (paired : Paired suffixing plain suffixed) (declares : suffixing.Declares spec suffixedSpec)
    (ran : Runs (Compile.layer spec) plain () after) :
    ∃ suffixedAfter, Runs (Compile.layer suffixedSpec) suffixed () suffixedAfter ∧
      Paired suffixing after suffixedAfter := by
  obtain ⟨noInput, noOutput⟩ := declares.noInput
  rcases (runs_layer noInput noOutput).1 ran with ⟨_, takes, _⟩ | ⟨asked, takes, adds⟩
  · cases ((runs_takeAhead_of_nothing paired.plainFlat.nothingAhead).1 takes).1
  obtain ⟨_, rfl⟩ := (runs_takeAhead_of_nothing paired.plainFlat.nothingAhead).1 takes
  obtain ⟨kind, isKind, rfl⟩ := runs_newLayer.1 adds
  have suffixedKind : suffixedSpec.layerKind = .ok kind := by
    rw [declares.same]
    exact LayerSpec.layerKind_renamed _ _ _ _ isKind
  have suffixedNoInput : suffixedSpec.isInput = false := by
    rw [declares.same]
    exact noInput
  have suffixedNoOutput : suffixedSpec.isOutput = false := by
    rw [declares.same]
    exact noOutput
  have suffixedTakes :
      Runs (takeAhead suffixedSpec.name (.layer suffixedSpec)) suffixed false suffixed :=
    (runs_takeAhead_of_nothing paired.suffixedFlat.nothingAhead).2 ⟨rfl, rfl⟩
  refine ⟨_, (runs_layer suffixedNoInput suffixedNoOutput).2 (.inr ⟨suffixed, suffixedTakes,
    runs_newLayer.2 ⟨kind, suffixedKind, rfl⟩⟩), ?_⟩
  exact (paired.withLayer declares.name
    (LayerSpec.isDeclared_of_layerKind isKind).isLeaf).logged _ _

end Paired

/-! ## Connections -/

section Connections

variable {scope : ScopeId} {source target endpoint : String} {before after : CompileState}

/-- What is known is not compiled ahead. -/
theorem Ensured.of_known {inner : List Visit} (ensured : Ensured scope endpoint before inner after)
    (known : (before.resolveExact scope endpoint).isSome = true) : after = before := by
  rcases ensured.cases with ⟨_, _, same⟩ | ⟨unresolved, _⟩
  · exact same
  · rw [unresolved] at known
    cases known

/-- Where only templates are registered nothing is compiled ahead. -/
theorem runs_ensure_of_templates
    (templates : ∀ {name instruction}, before.registry.lookup name = some instruction →
      ∃ declared parameters body, instruction = .templateDef declared parameters body)
    (compile : Instruction → CompileM Unit) (scope : ScopeId) (endpoint : String) :
    Runs (ensure compile scope endpoint) before () before := by
  obtain ⟨unknown, _, asks⟩ := total_isUnknown scope endpoint before
  obtain ⟨_, rfl⟩ := runs_isUnknown.1 asks
  refine runs_bind.2 ⟨unknown, _, asks, ?_⟩
  cases unknown with
  | false => exact runs_pure.2 ⟨rfl, rfl⟩
  | true => exact runs_bind.2 ⟨none, _, runs_startAhead_of_templates templates,
      runs_pure.2 ⟨rfl, rfl⟩⟩

/-- Recording a connection moves to no other scope and makes nothing visible. -/
theorem keepsPlace_finishConnect (scope : ScopeId) (source target : String) :
    Keeps (fun state => (state.scopes, state.current)) (finishConnect scope source target) := by
  refine keeps_get_bind fun state => keeps_bind (keeps_modify fun _ => rfl) fun _ => ?_
  split
  · exact keeps_modify fun _ => rfl
  · exact keeps_bind (keeps_modify fun _ => rfl) fun _ => keeps_modify fun _ => rfl

/-- A connection brings no error exactly when both endpoints stand for layers. -/
theorem issues_of_finishConnect (ran : Runs (finishConnect scope source target) before () after) :
    after.network.issues = [] ↔ before.network.issues = [] ∧
      (before.resolve scope source).isSome = true ∧
      (before.resolve scope target).isSome = true := by
  have rest := runs_get_bind.1 ran
  obtain ⟨_, recorded, records, outcome⟩ := runs_bind.1 rest
  have issues : recorded.network.issues = before.network.issues := by
    rw [runs_modify.1 records]
  have nothing_iff : ([source, target].filter fun endpoint =>
      (before.resolve scope endpoint).isNone) = [] ↔
      (before.resolve scope source).isSome = true ∧
        (before.resolve scope target).isSome = true := by
    simp [List.filter_eq_nil_iff, Option.isSome_iff_ne_none]
  split at outcome
  · rename_i nothing
    rw [(isQuiet_log _ _ _ _ outcome).issues, issues]
    exact (and_iff_left (nothing_iff.1 (List.isEmpty_iff.1 nothing))).symm
  · rename_i something
    obtain ⟨_, logged, logs, issued⟩ := runs_bind.1 outcome
    rw [runs_modify.1 issued]
    refine iff_of_false (List.append_ne_nil_of_right_ne_nil _ (List.cons_ne_nil _ _)) ?_
    rintro ⟨_, found⟩
    exact something (List.isEmpty_iff.2 (nothing_iff.2 found))

/-- A connection leaves the layers of a flat state as they are. -/
theorem Flat.finishConnect (flat : Flat before)
    (ran : Runs (finishConnect scope source target) before () after) :
    Flat after ∧ after.rootEntries = before.rootEntries := by
  have settles := settles_of_finishConnect ran
  obtain ⟨scopes, current⟩ := Prod.mk.inj (keepsPlace_finishConnect _ _ _ _ _ _ ran)
  obtain ⟨_, compiledAhead, _⟩ := Books.mk.inj (keeps_finishConnect steady_books _ _ _ _ _ _ ran)
  have entries : after.rootEntries = before.rootEntries := by
    rw [CompileState.rootEntries, scopes]
    rfl
  exact ⟨{
    sound := settles.sound flat.sound
    noEdges := fun first second edge => flat.noEdges first second (settles.edges edge)
    nothingAhead := compiledAhead.trans flat.nothingAhead
    inRoot := current.trans flat.inRoot
    scopes := by rw [scopes, flat.scopes, entries] }, entries⟩

end Connections

private theorem hasBrackets_of_connects {suffixing : Suffixing} {plain suffixed : String}
    (connects : suffixing.Connects plain suffixed) (noBrackets : hasBrackets plain = false) :
    hasBrackets suffixed = false := by
  rcases connects with bears | ⟨_, rfl⟩
  · have tailPlain : suffixing.tail.text.toList.any
        (fun character => character == '[' || character == ']') = false := by
      refine List.any_eq_false.2 fun character member isBracket => ?_
      have isWord := List.all_eq_true.1 suffixing.tail.isWord character member
      rw [Bool.or_eq_true, beq_iff_eq, beq_iff_eq] at isBracket
      rcases isBracket with rfl | rfl
      · cases isWord
      · cases isWord
    unfold hasBrackets at noBrackets ⊢
    rw [bears.same, String.toList_append, List.any_append, noBrackets, tailPlain, Bool.or_self]
  · exact noBrackets

namespace Paired

variable {suffixing : Suffixing} {plain suffixed : CompileState}
  {source target suffixedSource suffixedTarget : String}

/-- No suffixed name is that of the input that auto-inputs belong to. -/
theorem addsNoInput (paired : Paired suffixing plain suffixed) (source : String) :
    AddsNoInput source suffixed := by
  refine addsNoInput_of_noBase (Option.eq_none_iff_forall_ne_some.2 fun id found => ?_)
  have named := paired.suffixedFlat.sound.resolveExact found
  exact not_endsIn_of_single suffixing.tail (by decide) (paired.endsIn_of_named named)

/-- A connection after its layers is recorded on both sides. Without the suffix an endpoint is not
found, which is an error. -/
theorem connect (paired : Paired suffixing plain suffixed)
    (sourceConnects : suffixing.Connects source suffixedSource)
    (targetConnects : suffixing.Connects target suffixedTarget)
    (sourceNamed : ∃ id, plain.network.Named source id)
    (targetNamed : ∃ id, plain.network.Named target id)
    {started between ensured after : CompileState} {scope : ScopeId} {first second : List Visit}
    (starts : Runs (startConnect source target) plain scope started)
    (sourceEnsured : Ensured scope source started first between)
    (targetEnsured : Ensured scope target between second ensured)
    (finishes : Runs (finishConnect scope source target) ensured () after)
    (compile : Instruction → CompileM Unit) :
    ∃ suffixedAfter, Runs (Compile.connect compile suffixedSource suffixedTarget) suffixed ()
        suffixedAfter ∧ Paired suffixing after suffixedAfter := by
  obtain ⟨sourceId, sourceFound⟩ := sourceNamed
  obtain ⟨targetId, targetFound⟩ := targetNamed
  have sourceKnown := CompileState.isSome_resolveExact_of_named plain.current sourceFound
  have targetKnown := CompileState.isSome_resolveExact_of_named plain.current targetFound
  -- On the plain side both endpoints are known, so all that happens is the recording.
  obtain ⟨⟨sourcePlain, targetPlain⟩, rfl, rfl⟩ :=
    (runs_startConnect_iff (addsNoInput_of_known sourceKnown)).1 starts
  obtain rfl := sourceEnsured.of_known sourceKnown
  obtain rfl := targetEnsured.of_known targetKnown
  rw [paired.plainFlat.inRoot] at finishes
  have suffixedStarts : Runs (startConnect suffixedSource suffixedTarget) suffixed 0 suffixed :=
    (runs_startConnect_iff (paired.addsNoInput _)).2
      ⟨⟨hasBrackets_of_connects sourceConnects sourcePlain,
        hasBrackets_of_connects targetConnects targetPlain⟩, paired.suffixedFlat.inRoot.symm, rfl⟩
  obtain ⟨_, suffixedAfter, suffixedFinishes⟩ :=
    total_finishConnect 0 suffixedSource suffixedTarget suffixed
  have ran : Runs (Compile.connect compile suffixedSource suffixedTarget) suffixed ()
      suffixedAfter :=
    runs_bind.2 ⟨_, _, suffixedStarts,
      runs_bind.2 ⟨(), _, runs_ensure_of_templates paired.templates compile 0 _,
      runs_bind.2 ⟨(), _, runs_ensure_of_templates paired.templates compile 0 _,
        suffixedFinishes⟩⟩⟩
  obtain ⟨flat, entries⟩ := paired.plainFlat.finishConnect finishes
  obtain ⟨suffixedFlat, suffixedEntries⟩ := paired.suffixedFlat.finishConnect suffixedFinishes
  have nodes := nodes_of_finishConnect finishes
  have grows := (settles_of_finishConnect finishes).grows.network
  obtain ⟨flagged, recorded⟩ := (settles_of_finishConnect finishes).recorded
  obtain ⟨suffixedFlagged, suffixedRecorded⟩ := (settles_of_finishConnect suffixedFinishes).recorded
  obtain ⟨registry, _, _⟩ :=
    Books.mk.inj (keeps_finishConnect steady_books _ _ _ _ _ _ suffixedFinishes)
  have sourceFoundAfter : ∃ id, after.network.Named source id := ⟨_, grows.named sourceFound⟩
  have targetFoundAfter : ∃ id, after.network.Named target id := ⟨_, grows.named targetFound⟩
  refine ⟨suffixedAfter, ran, flat, suffixedFlat, ?_, ?_, ?_, ?_, ?_, ?_⟩
  · rw [nodes_of_finishConnect suffixedFinishes, nodes, paired.nodes]
  · rw [suffixedEntries, entries, paired.entries]
  · rw [nodes]
    exact paired.clean
  · rw [registry]
    exact paired.templates
  · rw [recorded, suffixedRecorded]
    refine List.rel_append (paired.pending.imp fun one another beside => { beside with
      sourceNamed := beside.sourceNamed.imp fun _ => grows.named
      targetNamed := beside.targetNamed.imp fun _ => grows.named }) (.cons ?_ .nil)
    exact ⟨⟨rfl, rfl⟩, sourceConnects, targetConnects, sourceFoundAfter, targetFoundAfter⟩
  · rw [issues_of_finishConnect suffixedFinishes, paired.issues, suffixedRecorded,
      List.forall_mem_append, List.forall_mem_singleton,
      paired.isSome_resolve_iff sourceConnects ⟨_, sourceFound⟩,
      paired.isSome_resolve_iff targetConnects ⟨_, targetFound⟩]
    rfl

end Paired

/-! ## Loops -/

private theorem counts_roundSubstitution {counters : List String} {counter : String}
    (member : counter ∈ counters) (value : Int) :
    Substitution.Counts counters (roundSubstitution counter value) := by
  refine ⟨isNumeric_roundSubstitution counter value, fun key bound => ?_⟩
  rcases Substitution.eq_or_binds_of_binds_bind bound with rfl | none
  · exact member
  · cases none

/-! ## The run that follows another -/

/-- Every connection that a visit comes to stands after its layers. -/
def ConnectsLayers (outer : Visit) : Prop :=
  ∀ visit source target, Visit.Within visit outer → visit.instruction = .connect source target →
    (∃ id, visit.before.network.Named source id) ∧ ∃ id, visit.before.network.Named target id

/-- Decides whether a visit of a connection comes after its layers. -/
def connectsKnown (visit : Visit) : Bool :=
  match visit.instruction with
  | .connect source target =>
    visit.before.network.names.contains source && visit.before.network.names.contains target
  | _ => true

private theorem exists_named_iff {network : Network} {name : String} :
    (∃ id, network.Named name id) ↔ network.names.contains name = true := by
  simp only [Network.named_iff_names, List.contains_iff_mem, List.mem_iff_getElem?]

private theorem connectsKnown_iff {visit : Visit} : connectsKnown visit = true ↔
    ∀ source target, visit.instruction = .connect source target →
      (∃ id, visit.before.network.Named source id) ∧
        ∃ id, visit.before.network.Named target id := by
  unfold connectsKnown
  split
  · rename_i source target connects
    rw [connects, Bool.and_eq_true, ← exists_named_iff, ← exists_named_iff]
    constructor
    · rintro both _ _ same
      cases same
      exact both
    · exact fun each => each source target rfl
  · rename_i noConnection
    exact iff_of_true rfl fun source target connects => absurd connects (noConnection source target)

instance (outer : Visit) : Decidable (ConnectsLayers outer) :=
  decidable_of_iff (outer.all connectsKnown = true) <| by
    rw [Visit.all_iff]
    simp only [connectsKnown_iff]
    exact ⟨fun each visit source target within => each visit within source target,
      fun each visit within source target => each visit source target within⟩

theorem ConnectsLayers.ofInner {visit below : Visit} (connects : ConnectsLayers visit)
    (member : below ∈ visit.inner) : ConnectsLayers below :=
  fun _ source target within => connects _ source target (within.trans (.under member (.self _)))

def Followed (suffixing : Suffixing) (visit : Visit) : Prop :=
  ∀ {instruction : Instruction} {before : CompileState} {depth : Nat},
    suffixing.On visit.instruction instruction → Paired suffixing visit.before before →
    visit.instruction.nodeCount ≤ depth →
      ∃ after, Runs (within depth instruction) before () after ∧
        Paired suffixing visit.after after

section Following

variable {suffixing : Suffixing} {before after suffixed : CompileState} {inner : List Visit}

/-- Visits of a list of instructions are followed by the run of a list that is filled in. -/
theorem Sequence.followed {Matches : Instruction → Visit → Prop} {body others : List Instruction}
    {substitution : Substitution} {depth : Nat}
    (sequence : Sequence Matches body before inner after)
    (each : ∀ visit ∈ inner, Followed suffixing visit)
    (filled : List.Forall₂ (fun template other => ∀ visit, Matches template visit →
      visit.instruction.nodeCount ≤ depth ∧
        ∃ instruction, substitution.apply other = .ok instruction ∧
          suffixing.On visit.instruction instruction) body others) :
    ∀ {suffixed : CompileState}, Paired suffixing before suffixed →
      ∃ suffixedAfter,
        Runs (Compile.filled (within depth) substitution others) suffixed () suffixedAfter ∧
          Paired suffixing after suffixedAfter := by
  induction sequence generalizing others with
  | done state =>
      intro suffixed paired
      cases filled
      exact ⟨suffixed, runs_pure.2 ⟨rfl, rfl⟩, paired⟩
  | next isMatch _ inductionHypothesis =>
      intro suffixed paired
      cases filled with
      | cons first rest =>
          obtain ⟨deep, instruction, applied, on⟩ := first _ isMatch
          obtain ⟨between, ran, pairedBetween⟩ := each _ List.mem_cons_self on paired deep
          obtain ⟨suffixedAfter, restRan, pairedAfter⟩ := inductionHypothesis
            (fun visit member => each visit (List.mem_cons_of_mem _ member)) rest pairedBetween
          exact ⟨suffixedAfter, runs_bind.2 ⟨instruction, suffixed,
            runs_expression.2 ⟨applied, rfl⟩, runs_bind.2 ⟨(), between, ran, restRan⟩⟩,
            pairedAfter⟩

/-- One round of a loop fills its counter into both bodies. -/
theorem forall₂_of_onAll {counter : String} (isCounter : counter ∈ suffixing.counters)
    (value : Int) {depth : Nat} : ∀ {body others : List Instruction}, suffixing.OnAll body others →
      Instruction.nodeCountAll body ≤ depth →
      List.Forall₂ (fun template other => ∀ visit,
        FilledIn (roundSubstitution counter value) template visit →
          visit.instruction.nodeCount ≤ depth ∧
            ∃ instruction, (roundSubstitution counter value).apply other = .ok instruction ∧
              suffixing.On visit.instruction instruction) body others
  | [], [], _, _ => .nil
  | template :: rest, other :: others, on, deep => by
      rw [Instruction.nodeCountAll] at deep
      refine .cons (fun visit filledIn => ?_) (forall₂_of_onAll isCounter value on.2 (by omega))
      obtain ⟨instruction, applied, filledOn, sameCount⟩ :=
        on.1.apply (counts_roundSubstitution isCounter value) filledIn
      exact ⟨by omega, instruction, applied, filledOn⟩
  | [], _ :: _, on, _ => on.elim
  | _ :: _, [], on, _ => on.elim

/-- Every round of a loop is followed by a round of the suffixed loop. -/
theorem Rounds.followed {counter : String} {body others : List Instruction} {count : Nat}
    {value : Int} {depth : Nat} (rounds : Rounds counter body count value before inner after)
    (each : ∀ visit ∈ inner, Followed suffixing visit)
    (isCounter : counter ∈ suffixing.counters) (on : suffixing.OnAll body others)
    (deep : Instruction.nodeCountAll body ≤ depth) :
    ∀ {suffixed : CompileState}, Paired suffixing before suffixed →
      ∃ suffixedAfter,
        Runs (Compile.rounds (within depth) counter others count value) suffixed ()
          suffixedAfter ∧ Paired suffixing after suffixedAfter := by
  induction rounds with
  | done value state => exact fun paired => ⟨_, runs_pure.2 ⟨rfl, rfl⟩, paired⟩
  | @round count value _ _ _ _ _ filled _ inductionHypothesis =>
      intro suffixed paired
      obtain ⟨between, ran, pairedBetween⟩ := filled.followed
        (fun visit member => each visit (List.mem_append_left _ member))
        (forall₂_of_onAll isCounter value on deep) paired
      obtain ⟨suffixedAfter, restRan, pairedAfter⟩ := inductionHypothesis
        (fun visit member => each visit (List.mem_append_right _ member)) pairedBetween
      exact ⟨suffixedAfter, runs_bind.2 ⟨(), between, ran, restRan⟩, pairedAfter⟩

end Following

end Compile

/-- The run of a suffixed tree follows that of the tree, where connections stand after their
layers. -/
theorem Visit.Faithful.followed {suffixing : Suffixing} {visit : Visit} (faithful : visit.Faithful)
    (connects : Compile.ConnectsLayers visit) : Compile.Followed suffixing visit := by
  induction faithful with
  | @intro visit unfolds _ inductionHypothesis =>
      intro instruction before depth on paired deep
      have inner (below : Visit) (member : below ∈ visit.inner) :
          Compile.Followed suffixing below :=
        inductionHypothesis below member (connects.ofInner member)
      obtain ⟨plain, start, finish, below⟩ := visit
      obtain ⟨lower, rfl⟩ : ∃ lower, depth = lower + 1 :=
        Nat.exists_eq_add_one.2 (Nat.lt_of_lt_of_le plain.nodeCount_pos deep)
      cases unfolds with
      | layer ran =>
          cases instruction with
          | layer spec => exact paired.layer on ran
          | _ => exact on.elim
      | connect starts sourceEnsured targetEnsured finishes =>
          cases instruction with
          | connect source target =>
              obtain ⟨sourceNamed, targetNamed⟩ := connects _ _ _ (.self _) rfl
              exact paired.connect on.1 on.2 sourceNamed targetNamed starts sourceEnsured
                targetEnsured finishes _
          | _ => exact on.elim
      | loop opens rounds =>
          cases instruction with
          | loop counter first last body =>
              obtain ⟨⟨isCounter, rfl, rfl, rfl⟩, bodies⟩ := on
              obtain ⟨low, high, lowIs, highIs, isRange, rfl⟩ := Compile.runs_loopRange.1 opens
              rw [Instruction.nodeCount, Nat.add_comm] at deep
              obtain ⟨after, ran, pairedAfter⟩ := rounds.followed inner isCounter bodies
                (Nat.le_of_add_le_add_right deep)
                (paired.logged _ (Compile.rangeLine counter low high body.length))
              refine ⟨after, Compile.runs_bind.2 ⟨(_, _), _, ?_, ran⟩, pairedAfter⟩
              exact Compile.runs_loopRange.2 ⟨low, high, lowIs, highIs, isRange, rfl⟩
          | _ => exact on.elim
      | _ => exact on.elim

end NetBlueprint
