import NetBlueprint.Proofs.Compiler.CalledBodies
import NetBlueprint.Proofs.Compiler.Following
import NetBlueprint.Proofs.Compiler.Reordering

/-!
Contract: a body that is compiled in place, and the same body compiled through a template.

The call of a template without arguments puts its suffix on the layers of the body. Its run follows
the run of the body in place, so the layers are the same but for the suffix. A connection keeps its
layers exactly when its endpoints got the suffix as well, and they do when they are spelled like the
name of a layer: names are compared before the counters of loops are filled in.

Owns: what a call without arguments makes of a body that could stand in its place.
-/

namespace NetBlueprint.Compile

/-- A program that declares a template without parameters and calls it once. -/
def calledOnce (label : String) (body : List Instruction) : Instruction :=
  .program [.templateDef label [] body, .templateCall label []]

def firstSuffix (label : String) (seed : UInt64) : String :=
  Suffix.suffixText label 0 (Suffix.randomWord seed 0)

def callTail (label : String) (isLabel : label.toList.all Text.isWordChar = true)
    (seed : UInt64) : Name.Tail where
  text := firstSuffix label seed
  isWord := by
    obtain ⟨mark, isMark, spelled⟩ := Suffix.toList_suffixText label 0 (Suffix.randomWord seed 0)
    have markIsWord : mark.all Text.isWordChar = true :=
      List.all_eq_true.2 fun digit member => Suffix.isWordChar_of_markDigit (isMark.2 digit member)
    rw [firstSuffix, spelled, Suffix.spelling, List.all_append, List.all_cons, List.all_cons,
      List.all_cons, isLabel, markIsWord]
    rfl
  opens := by
    obtain ⟨mark, _, spelled⟩ := Suffix.toList_suffixText label 0 (Suffix.randomWord seed 0)
    exact ⟨_, spelled⟩

/-! ## Opening a call -/

section Opening

variable {name label : String} {seed : UInt64} {body : List Instruction}
  {program : Instruction} {before after : CompileState}

private theorem exists_freshSuffix (unused : before.usedSuffixes = []) (label : String) :
    ∃ after, Runs (freshSuffix label) before
        (Suffix.suffixText label 0 (Suffix.randomWord before.seed before.drawnWords)) after ∧
      after.current = before.current ∧ after.books = before.books := by
  have first (budget : Nat) : Runs (drawSuffix label (budget + 1) 0) before
      (Suffix.suffixText label 0 (Suffix.randomWord before.seed before.drawnWords))
      { before with
        drawnWords := before.drawnWords + 1
        usedSuffixes := Suffix.suffixText label 0 (Suffix.randomWord before.seed before.drawnWords)
          :: before.usedSuffixes } := by
    refine runs_get_bind.2 (runs_bind.2 ⟨(), _, runs_set.2 rfl, ?_⟩)
    rw [unused]
    exact runs_bind.2 ⟨(), _, runs_modify.2 rfl, runs_pure.2 ⟨rfl, rfl⟩⟩
  obtain ⟨budget, isLimit⟩ : ∃ budget, Suffix.attemptLimit = budget + 1 :=
    ⟨Suffix.attemptLimit - 1, rfl⟩
  have whole := first budget
  rw [← isLimit] at whole
  exact ⟨_, whole, rfl, rfl⟩

private theorem exists_openTemplate
    (defined : before.network.template? label = some (.templateDef label [] body))
    (unused : before.usedSuffixes = []) {suffix : String}
    (drawn : suffix = Suffix.suffixText label 0 (Suffix.randomWord before.seed before.drawnWords))
    {renames : List (String × String)}
    (built : hygienicRenames body (callSubstitution [] [] suffix) [] suffix false = .ok renames) :
    ∃ after, Runs (openTemplate label []) before
        ⟨[], body, suffix, (callSubstitution [] [] suffix).withRenames renames⟩ after ∧
      after.current = before.current ∧ after.books = before.books := by
  obtain ⟨after, draws, current, books⟩ := exists_freshSuffix unused label
  rw [← drawn] at draws
  have found : Runs (findTemplate label) before (some (.templateDef label [] body)) before := by
    refine runs_get_bind.2 ?_
    rw [defined]
    exact runs_pure.2 ⟨rfl, rfl⟩
  exact ⟨_, runs_openTemplate_iff.2 (.opened found rfl draws built), current, books⟩

private theorem keepsDrawing_prepare (name : String) (program : Instruction) :
    Keeps (fun state => (state.current, state.usedSuffixes, state.seed, state.drawnWords))
      (prepare name program) :=
  keeps_bind (keeps_modify fun _ => rfl) fun _ => keeps_bind (keeps_modify fun _ => rfl) fun _ =>
    keeps_get_bind fun _ => keeps_modify fun _ => rfl

/-- A flat state stays flat under quiet steps that stay in their scope. -/
theorem Flat.of_quiet (flat : Flat before) (quiet : before.Quiet after)
    (current : after.current = before.current)
    (compiledAhead : after.compiledAhead = before.compiledAhead) :
    Flat after ∧ after.rootEntries = before.rootEntries := by
  have leads := quiet.leadsTo
  have entries : after.rootEntries = before.rootEntries := by
    rw [CompileState.rootEntries, quiet.scopes]
    rfl
  exact ⟨{
    sound := leads.sound flat.sound
    noEdges := fun source target edge => flat.noEdges source target (leads.edges edge)
    nothingAhead := compiledAhead.trans flat.nothingAhead
    inRoot := current.trans flat.inRoot
    scopes := by rw [quiet.scopes, flat.scopes, entries] }, entries⟩

private theorem flat_start (name : String) (seed : UInt64) : Flat
    (CompileState.start name seed) where
  sound := CompileState.sound_start name seed
  noEdges _ _ edge := by
    obtain ⟨_, found, _⟩ := edge
    exact absurd (Network.lt_size_of_layer? found) (Nat.not_lt_zero _)
  nothingAhead := rfl
  inRoot := rfl
  scopes := rfl

/-- A state in which nothing was compiled, recorded or reported. -/
structure Blank (state : CompileState) : Prop where
  flat : Flat state
  entries : state.rootEntries = []
  nodes : state.network.nodes = []
  pending : state.pending.toList = []
  issues : state.network.issues = []

theorem Blank.of_quiet (blank : Blank before) (quiet : before.Quiet after)
    (current : after.current = before.current)
    (compiledAhead : after.compiledAhead = before.compiledAhead) : Blank after := by
  obtain ⟨flat, entries⟩ := blank.flat.of_quiet quiet current compiledAhead
  exact ⟨flat, entries.trans blank.entries, quiet.nodes.trans blank.nodes,
    (congrArg Array.toList quiet.pending).trans blank.pending, quiet.issues.trans blank.issues⟩

/-- Before the first instruction a state is blank. -/
theorem blank_of_prepare (prepares : Runs (prepare name program) (CompileState.start name seed) ()
    before) : Blank before := by
  have current := congrArg Prod.fst (keepsDrawing_prepare _ _ _ _ _ prepares)
  obtain ⟨_, compiledAhead, _⟩ := Books.mk.inj (books_of_prepare prepares)
  exact Blank.of_quiet ⟨flat_start name seed, rfl, rfl, rfl, rfl⟩
    (isQuiet_prepare _ _ _ _ _ prepares) current compiledAhead

/-- States before both runs are paired. -/
theorem Blank.paired {suffixing : Suffixing} (plain : Blank before) (suffixed : Blank after)
    (templates : ∀ {name instruction}, after.registry.lookup name = some instruction →
      ∃ declared parameters body, instruction = .templateDef declared parameters body) :
    Paired suffixing before after where
  plainFlat := plain.flat
  suffixedFlat := suffixed.flat
  nodes := by rw [plain.nodes, suffixed.nodes, List.map_nil]
  entries := by rw [plain.entries, suffixed.entries, List.map_nil]
  clean := by
    rw [plain.nodes]
    exact fun _ => (absurd · List.not_mem_nil)
  templates := templates
  pending := by
    rw [plain.pending, suffixed.pending]
    exact .nil
  issues := by
    rw [suffixed.issues, suffixed.pending]
    exact iff_of_true rfl fun _ => (absurd · List.not_mem_nil)

private theorem templates_of_calledOnce {key : String} {instruction : Instruction}
    (found : ((calledOnce label body).prescan []).lookup key = some instruction) :
    ∃ declared parameters inner, instruction = .templateDef declared parameters inner := by
  have member := Table.mem_of_lookup found
  simp only [calledOnce, Instruction.prescan, Instruction.prescanAll] at member
  split at member
  · rcases CompileState.mem_offered member with old | ⟨_, same⟩
    · cases old
    · exact ⟨_, _, _, same⟩
  · cases member

private theorem exists_templateDef (label : String) (body : List Instruction)
    (before : CompileState) :
    ∃ after, Runs (templateDef label [] body) before () after ∧
      after.network.template? label = some (.templateDef label [] body) ∧
      after.books = before.books ∧ after.current = before.current ∧
      after.usedSuffixes = before.usedSuffixes ∧ after.seed = before.seed ∧
      after.drawnWords = before.drawnWords := by
  have ran : ∃ line, Runs (templateDef label [] body) before () (CompileState.logged
      { before with
        network := before.network.registerTemplate label (.templateDef label [] body) } line) := by
    apply Exists.intro
    exact runs_bind.2 ⟨(), _, runs_modify.2 rfl, runs_log.2 rfl⟩
  obtain ⟨line, ran⟩ := ran
  exact ⟨_, ran, Text.lookup_insertSorted_self label _ _, rfl, rfl, rfl, rfl, rfl⟩

end Opening

/-! ## The run of a call -/

section Calling

variable {name label : String} {seed : UInt64} {counters : List String} {body : List Instruction}
  {suffixing : Suffixing} {before after : CompileState} {inner : List Visit}

private theorem forall₂_of_applied {substitution : Substitution} {depth : Nat} :
    ∀ {body others : List Instruction}, substitution.applyAll body = .ok others →
      suffixing.OnAll body others → Instruction.nodeCountAll body ≤ depth →
      List.Forall₂ (fun template other => ∀ visit, Is template visit →
        visit.instruction.nodeCount ≤ depth ∧
          ∃ instruction, substitution.apply other = .ok instruction ∧
            suffixing.On visit.instruction instruction) body body
  | [], _, _, _, _ => .nil
  | template :: rest, _, applied, on, deep => by
      obtain ⟨instruction, one, following⟩ := Outcome.bind_eq_ok.1 applied
      obtain ⟨others, all, last⟩ := Outcome.bind_eq_ok.1 following
      cases Outcome.pure_eq_ok.1 last
      rw [Instruction.nodeCountAll] at deep
      refine .cons ?_ (forall₂_of_applied all on.2 (by omega))
      rintro visit rfl
      exact ⟨by omega, instruction, one, on.1⟩

/-- The call of a template follows the visits of the body in place. -/
theorem exists_called_build (name : String) (wiring : Wiring counters body)
    (sameTail : suffixing.tail.text = firstSuffix label seed)
    (sameCounters : suffixing.counters = counters)
    (spelled : suffixing.strict = true → SpelledAlike body)
    (sequence : Sequence Is body before inner after)
    (each : ∀ visit ∈ inner, Followed suffixing visit) (blank : Blank before) :
    ∃ suffixed, Runs (build name (calledOnce label body)) (CompileState.start name seed) ()
        suffixed ∧ Paired suffixing after suffixed := by
  obtain ⟨_, prepared, prepares⟩ :=
    total_prepare name (calledOnce label body) (CompileState.start name seed)
  have renamed : ∃ renames, hygienicRenames body
      (callSubstitution [] [] (firstSuffix label seed)) [] (firstSuffix label seed) false =
        .ok renames := wiring.exists_hygienicRenames
  obtain ⟨renames, built⟩ := renamed
  obtain ⟨others, applied, on⟩ := wiring.exists_onAll built sameTail sameCounters spelled
  obtain ⟨declared, declares, defined, declaredBooks, declaredCurrent, unused, sameSeed, drawn⟩ :=
    exists_templateDef label body prepared
  obtain ⟨_, suffixes, seeds, words⟩ :=
    (Prod.mk.inj (keepsDrawing_prepare _ _ _ _ _ prepares)).imp_right fun rest =>
      (Prod.mk.inj rest).imp_right Prod.mk.inj
  have isFirst : firstSuffix label seed =
      Suffix.suffixText label 0 (Suffix.randomWord declared.seed declared.drawnWords) := by
    rw [sameSeed, drawn, seeds, words]
    rfl
  obtain ⟨opened, opens, openedCurrent, openedBooks⟩ :=
    exists_openTemplate defined (unused.trans suffixes) isFirst built
  -- Until the body is compiled nothing happens but that books are kept and a word is drawn.
  have openedBlank : Blank opened := by
    have books := openedBooks.trans declaredBooks
    exact (blank_of_prepare prepares).of_quiet
      ((isQuiet_templateDef _ _ _ _ _ _ declares).trans (runs_openTemplate opens).1.quiet)
      (openedCurrent.trans declaredCurrent) (congrArg Books.compiledAhead books)
  have templates {key : String} {instruction : Instruction}
      (found : opened.registry.lookup key = some instruction) :
      ∃ declared parameters inner, instruction = .templateDef declared parameters inner := by
    have registry : opened.registry = (calledOnce label body).prescan [] := by
      have books := openedBooks.trans (declaredBooks.trans (books_of_prepare prepares))
      exact congrArg Books.registry books
    rw [registry] at found
    exact templates_of_calledOnce found
  obtain ⟨depth, isDepth, deep⟩ : ∃ depth, depthFor (calledOnce label body) = depth + 2 ∧
      Instruction.nodeCountAll body ≤ depth := by
    refine ⟨depthFor (calledOnce label body) - 2, ?_, ?_⟩
    · rw [depthFor, expansionLevels]
      omega
    · rw [depthFor, expansionLevels, calledOnce, Instruction.nodeCount, Instruction.nodeCountAll,
        Instruction.nodeCount, Nat.add_mul, Nat.mul_add]
      omega
  obtain ⟨suffixed, ran, paired⟩ := sequence.followed each (forall₂_of_applied applied on deep)
    (blank.paired openedBlank templates)
  refine ⟨suffixed, runs_bind.2 ⟨(), prepared, prepares, ?_⟩, paired⟩
  rw [isDepth]
  have called : Runs (within (depth + 1) (.templateCall label [])) declared () suffixed :=
    runs_bind.2 ⟨_, opened, opens, ran⟩
  exact runs_bind.2 ⟨(), declared, declares,
    runs_bind.2 ⟨(), suffixed, called, runs_pure.2 ⟨rfl, rfl⟩⟩⟩

end Calling

/-! ## What is wired in the end -/

namespace Paired

variable {suffixing : Suffixing} {plain suffixed : CompileState}

/-- An endpoint with the suffix stands for the layer that the plain endpoint stands for. -/
theorem resolve_eq (paired : Paired suffixing plain suffixed) {name other : String}
    (connects : suffixing.Connects name other) (named : ∃ id, plain.network.Named name id)
    (ends : EndsIn suffixing.tail.text other) :
    suffixed.resolve 0 other = plain.resolve 0 name := by
  obtain ⟨id, named⟩ := named
  rcases connects with bears | ⟨_, rfl⟩
  · have known := CompileState.isSome_resolveExact_of_named 0 named
    obtain ⟨first, found⟩ := Option.isSome_iff_exists.1 known
    rw [CompileState.resolve, CompileState.resolve, bears.same, paired.resolveExact_eq, found,
      Option.some_or, Option.some_or]
  · have single := (paired.isClean_of_named named).single
    exact absurd ends (not_endsIn_of_single suffixing.tail single)

/-- Two connections are wired between the same layers as soon as one got the suffix at both ends;
otherwise it is not wired at all. -/
theorem resolved_iff (paired : Paired suffixing plain suffixed) {one other : PendingConnect}
    (beside : RecordedBeside suffixing plain.network one other) {source target : LayerId} :
    Resolved suffixed other source target ↔
      BothEndIn suffixing.tail.text other ∧ Resolved plain one source target := by
  rw [Resolved, Resolved, beside.scopes.1, beside.scopes.2]
  constructor
  · rintro ⟨sourceFound, targetFound⟩
    have sourceEnds := (paired.isSome_resolve_iff beside.source beside.sourceNamed).1
      (Option.isSome_of_eq_some sourceFound)
    have targetEnds := (paired.isSome_resolve_iff beside.target beside.targetNamed).1
      (Option.isSome_of_eq_some targetFound)
    rw [paired.resolve_eq beside.source beside.sourceNamed sourceEnds] at sourceFound
    rw [paired.resolve_eq beside.target beside.targetNamed targetEnds] at targetFound
    exact ⟨⟨sourceEnds, targetEnds⟩, sourceFound, targetFound⟩
  · rintro ⟨⟨sourceEnds, targetEnds⟩, sourceFound, targetFound⟩
    exact ⟨(paired.resolve_eq beside.source beside.sourceNamed sourceEnds).trans sourceFound,
      (paired.resolve_eq beside.target beside.targetNamed targetEnds).trans targetFound⟩

end Paired

/-- A network with the layers of another one but for suffixes, with its edges, and without
issues. -/
structure KeepsWiring (inline called : Network) : Prop where
  noIssues : called.issues = []
  names : called.names.map Name.base = inline.names
  edges : ∀ source target, called.Edge source target ↔ inline.Edge source target

section Compiled

variable {suffixing : Suffixing} {name other : String} {seed otherSeed : UInt64}
  {program called : Instruction} {inline compiled : Compiled} {root calledRoot : Visit}

private theorem RootOf.edge_iff (rootOf : RootOf name seed program inline root)
    (flat : Flat root.after) {source target : LayerId} :
    inline.network.Edge source target ↔
      ∃ connection ∈ root.after.pending.toList, Resolved root.after connection source target := by
  rw [rootOf.network, rootOf.binds.edges]
  exact or_iff_right (flat.noEdges source target)

private theorem RootOf.issues_eq (rootOf : RootOf name seed program inline root) :
    inline.network.issues = root.after.network.issues := by
  rw [rootOf.network, rootOf.binds.issues]

variable (rootOf : RootOf name seed program inline root)
  (calledRootOf : RootOf other otherSeed called compiled calledRoot)
  (paired : Paired suffixing root.after calledRoot.after)

include rootOf calledRootOf paired

private theorem Paired.nodes_compiled :
    compiled.network.nodes = inline.network.nodes.map (Layer.suffixed suffixing.tail.text) := by
  rw [calledRootOf.nodes, rootOf.nodes, paired.nodes]

private theorem Paired.names_compiled :
    compiled.network.names.map Name.base = inline.network.names := by
  rw [Network.names_eq, Network.names_eq, paired.nodes_compiled rootOf calledRootOf,
    List.map_map, List.map_map]
  refine List.map_congr_left fun node member => ?_
  rw [rootOf.nodes] at member
  exact suffixing.tail.base_append (paired.clean node member)

private theorem Paired.edge_of_edge {source target : LayerId}
    (edge : compiled.network.Edge source target) : inline.network.Edge source target := by
  obtain ⟨connection, pending, resolved⟩ := (calledRootOf.edge_iff paired.suffixedFlat).1 edge
  obtain ⟨one, listed, beside⟩ := Table.exists_of_mem_right paired.pending pending
  exact (rootOf.edge_iff paired.plainFlat).2
    ⟨one, listed, ((paired.resolved_iff beside).1 resolved).2⟩

/-- The wiring is kept exactly when every connection got the suffix at both ends. -/
theorem Paired.keepsWiring_iff : KeepsWiring inline.network compiled.network ↔
    ∀ connection ∈ calledRoot.after.pending.toList,
      BothEndIn suffixing.tail.text connection := by
  have issues_iff : compiled.network.issues = [] ↔ _ := calledRootOf.issues_eq ▸ paired.issues
  constructor
  · exact fun keeps => issues_iff.1 keeps.noIssues
  · intro ends
    refine ⟨issues_iff.2 ends, paired.names_compiled rootOf calledRootOf, fun source target => ?_⟩
    refine ⟨paired.edge_of_edge rootOf calledRootOf, fun edge => ?_⟩
    obtain ⟨one, listed, resolved⟩ := (rootOf.edge_iff paired.plainFlat).1 edge
    obtain ⟨connection, pending, beside⟩ := Table.exists_of_mem_right paired.pending.flip listed
    exact (calledRootOf.edge_iff paired.suffixedFlat).2 ⟨connection, pending,
      (paired.resolved_iff beside).2 ⟨ends connection pending, resolved⟩⟩

end Compiled

/-- Where every connection has to have the suffix, it has it at both ends. -/
theorem Paired.bothEndIn {suffixing : Suffixing} {plain suffixed : CompileState}
    (paired : Paired suffixing plain suffixed) (strict : suffixing.strict = true) :
    ∀ connection ∈ suffixed.pending.toList, BothEndIn suffixing.tail.text connection := by
  have ends {first second : String} (connects : suffixing.Connects first second) :
      EndsIn suffixing.tail.text second := by
    rcases connects with bears | ⟨lenient, _⟩
    · rw [bears.same, EndsIn, String.toList_append]
      exact List.suffix_append _ _
    · rw [strict] at lenient
      cases lenient
  intro connection pending
  obtain ⟨_, _, beside⟩ := Table.exists_of_mem_right paired.pending pending
  exact ⟨ends beside.source, ends beside.target⟩

/-- The connections that were come to in a run are those that it recorded. -/
theorem RootOf.bothEndIn_iff {name suffix : String} {seed : UInt64} {program : Instruction}
    {compiled : Compiled} {root : Visit} (rootOf : RootOf name seed program compiled root) :
    (∀ connection ∈ root.after.pending.toList, BothEndIn suffix connection) ↔
      ∀ visit source target, Visit.Within visit root →
        visit.instruction = .connect source target →
          EndsIn suffix source ∧ EndsIn suffix target := by
  constructor
  · intro recorded visit source target within connects
    obtain ⟨flagged, pending⟩ := rootOf.exists_recorded within connects
    exact recorded _ pending
  · intro visited connection pending
    obtain ⟨visit, within, connects, _⟩ := rootOf.recorded pending
    exact visited visit _ _ within connects

/-- A call compiles when its body compiles in place, and the two runs are paired in the end. -/
theorem RootOf.exists_called {name label : String} {seed : UInt64} {counters : List String}
    {body : List Instruction} {inline : Compiled} {root : Visit} {suffixing : Suffixing}
    (rootOf : RootOf name seed (.program body) inline root) (ordered : ConnectsLayers root)
    (wiring : Wiring counters body) (sameTail : suffixing.tail.text = firstSuffix label seed)
    (sameCounters : suffixing.counters = counters)
    (spelled : suffixing.strict = true → SpelledAlike body) :
    ∃ called calledRoot, compile name seed (calledOnce label body) = .ok called ∧
      RootOf name seed (calledOnce label body) called calledRoot ∧
      Paired suffixing root.after calledRoot.after := by
  have unfolds := rootOf.faithful.unfolds
  rw [rootOf.instruction] at unfolds
  cases unfolds with
  | program sequence =>
      have each (visit : Visit) (member : visit ∈ root.inner) : Followed suffixing visit :=
        (rootOf.faithful.ofInner member).followed (ordered.ofInner member)
      obtain ⟨suffixed, builds, paired⟩ := exists_called_build name wiring sameTail sameCounters
        spelled sequence each (blank_of_prepare rootOf.prepared)
      obtain ⟨called, compiles⟩ := exists_compiled_of_build builds
      obtain ⟨calledRoot, calledRootOf⟩ := exists_rootOf compiles
      have same : suffixed = calledRoot.after :=
        (congrArg stateOf builds).symm.trans calledRootOf.built
      exact ⟨called, calledRoot, compiles, calledRootOf, same ▸ paired⟩

/-- A call keeps the wiring of its body exactly when every connection that its run comes to has the
suffix at both ends, and they all have when they are spelled like the layers of the body. In any
case it has the same layers but for the suffix, and no other edges. The counters of the loops are
free of digits, the names of the layers do not end with one of them, and connections stand after
their layers. -/
theorem called_keepsWiring_iff {name label : String} {seed : UInt64} {counters : List String}
    {body : List Instruction} {inline : Compiled} {root : Visit}
    (isLabel : label.toList.all Text.isWordChar = true) (wiring : Wiring counters body)
    (compiles : compile name seed (.program body) = .ok inline)
    (isRoot : rootVisit? name seed (.program body) = some root) (ordered : ConnectsLayers root) :
    ∃ called calledRoot, compile name seed (calledOnce label body) = .ok called ∧
      rootVisit? name seed (calledOnce label body) = some calledRoot ∧
      called.network.nodes =
        inline.network.nodes.map (Layer.suffixed (firstSuffix label seed)) ∧
      (∀ source target, called.network.Edge source target → inline.network.Edge source target) ∧
      (KeepsWiring inline.network called.network ↔
        ∀ visit source target, Visit.Within visit calledRoot →
          visit.instruction = .connect source target →
            EndsIn (firstSuffix label seed) source ∧ EndsIn (firstSuffix label seed) target) ∧
      (SpelledAlike body → KeepsWiring inline.network called.network) := by
  let suffixing : Suffixing :=
    { tail := callTail label isLabel seed
      counters := counters
      areCounters := wiring.areCounters
      strict := decide (SpelledAlike body) }
  obtain ⟨_, rootOf⟩ := exists_rootOf compiles
  cases isRoot.symm.trans rootOf.isRoot
  obtain ⟨called, calledRoot, calledCompiles, calledRootOf, paired⟩ :=
    rootOf.exists_called ordered wiring (show suffixing.tail.text = firstSuffix label seed from rfl)
      rfl of_decide_eq_true
  have keeps_iff := paired.keepsWiring_iff rootOf calledRootOf
  exact ⟨called, calledRoot, calledCompiles, calledRootOf.isRoot,
    paired.nodes_compiled rootOf calledRootOf,
    fun _ _ edge => paired.edge_of_edge rootOf calledRootOf edge,
    keeps_iff.trans calledRootOf.bothEndIn_iff,
    fun spelled => keeps_iff.2 (paired.bothEndIn (decide_eq_true spelled))⟩

/-- Layers that a loop declares and connects to one in front of it, spelled as it declares them. -/
def connectsInRounds : List Instruction :=
  [sizedLayer "dense" "t" 1,
    .loop "i" "1" "2" [sizedLayer "dense" "h[i]" 1, .connect "h[i]" "t"]]

/-- Through a template they are connected as they are in place. -/
theorem called_rounds_connected :
    ∃ inline called, compile "net" 0 (.program connectsInRounds) = .ok inline ∧
      compile "net" 0 (calledOnce "m" connectsInRounds) = .ok called ∧
      inline.network.names = ["t", "h1", "h2"] ∧ inline.network.Edge 2 0 ∧
      KeepsWiring inline.network called.network := by
  have inlinePassed : (compile "net" 0 (.program connectsInRounds)).toOption.any (fun compiled =>
      compiled.network.names == ["t", "h1", "h2"] && compiled.network.hasEdge 2 0) = true := by
    decide +kernel
  have orderedPassed : (rootVisit? "net" 0 (.program connectsInRounds)).any
      (fun root => decide (ConnectsLayers root)) = true := by decide +kernel
  obtain ⟨inline, compiles, holds⟩ := exists_compiled inlinePassed
  obtain ⟨root, isRoot, ordered⟩ := (Option.any_eq_true _ _).1 orderedPassed
  rw [Bool.and_eq_true] at holds
  have wiring : Wiring ["i"] connectsInRounds := by decide +kernel
  have spelled : SpelledAlike connectsInRounds := by decide +kernel
  have isLabel : "m".toList.all Text.isWordChar = true := by decide
  obtain ⟨called, _, calledCompiles, _, _, _, _, keeps⟩ :=
    called_keepsWiring_iff isLabel wiring compiles isRoot (of_decide_eq_true ordered)
  exact ⟨inline, called, compiles, calledCompiles, eq_of_beq holds.1,
    Network.hasEdge_iff.1 holds.2, keeps spelled⟩

/-- Two layers that a loop declares under one template, connected by their names. -/
def connectsRounds : List Instruction :=
  [.loop "i" "1" "2" [sizedLayer "dense" "h[i]" 1], .connect "h1" "h2"]

/-- In place, the two layers are connected. Through a template, the connection names layers that
are not there any more. -/
theorem called_rounds_unconnected :
    ∃ inline called, compile "net" 0 (.program connectsRounds) = .ok inline ∧
      compile "net" 0 (calledOnce "m" connectsRounds) = .ok called ∧
      inline.network.names = ["h1", "h2"] ∧ inline.network.issues = [] ∧
      inline.network.Edge 0 1 ∧
      called.network.names = ["h1__m_6f7f", "h2__m_6f7f"] ∧
      called.network.hasErrors = true ∧ ¬ called.network.Edge 0 1 := by
  have inlinePassed : (compile "net" 0 (.program connectsRounds)).toOption.any (fun compiled =>
      compiled.network.names == ["h1", "h2"] && compiled.network.issues.isEmpty &&
        compiled.network.hasEdge 0 1) = true := by decide +kernel
  have calledPassed : (compile "net" 0 (calledOnce "m" connectsRounds)).toOption.any
      (fun compiled => compiled.network.names == ["h1__m_6f7f", "h2__m_6f7f"] &&
        compiled.network.hasErrors && !compiled.network.hasEdge 0 1) = true := by decide +kernel
  obtain ⟨inline, inlineCompiles, inlineHolds⟩ := exists_compiled inlinePassed
  obtain ⟨called, calledCompiles, calledHolds⟩ := exists_compiled calledPassed
  simp only [Bool.and_eq_true, Bool.not_eq_true', List.isEmpty_iff] at inlineHolds calledHolds
  obtain ⟨⟨inlineNames, noIssues⟩, inlineEdge⟩ := inlineHolds
  obtain ⟨⟨calledNames, hasErrors⟩, noEdge⟩ := calledHolds
  refine ⟨inline, called, inlineCompiles, calledCompiles, eq_of_beq inlineNames, noIssues,
    Network.hasEdge_iff.1 inlineEdge, eq_of_beq calledNames, hasErrors, fun edge => ?_⟩
  rw [Network.hasEdge_iff.2 edge] at noEdge
  cases noEdge

end NetBlueprint.Compile
