import NetBlueprint.Proofs.Compiler.Choosing

/-!
Contract: what a visit does by itself, between the visits below it.

A visit opens scopes, adds at most one layer or makes an input visible, and changes nothing else
that a lookup reads; everything it makes visible belongs to the scope in which it stands. So
whatever comes up in a run and stays is brought by one visit, in one step of its own, and that step
says which instruction it was brought for.

Owns: the own steps of a visit, and which of them brought what stays.
Does not own: what the visits below it do.
-/

namespace NetBlueprint

namespace CompileState

structure Still (before after : CompileState) : Prop where
  grows : before.GrowsTo after
  nodes : after.network.nodes = before.network.nodes
  scopes : after.scopes = before.scopes
  inputCache : after.inputCache = before.inputCache

/-- A quiet step is a still one. -/
theorem Quiet.still {before after : CompileState} (quiet : before.Quiet after) :
    before.Still after :=
  ⟨quiet.grows, quiet.nodes, quiet.scopes, quiet.inputCache⟩

theorem grows_withLayer (state : CompileState) (name : String) (kind : LayerKind) :
    state.GrowsTo (state.withLayer name kind) := by
  have visible := (grows_network (Network.growsTo_addLayer state.network name kind)).trans
    (grows_registered { state with network := state.network.addLayer name kind } name
      state.network.size)
  exact ⟨visible.network, visible.scopes, visible.firstNamed, visible.pending,
    visible.usedSuffixes, visible.branchCount⟩

end CompileState

namespace Compile

open CompileState

/-- An instruction adds a layer of a given name and kind in a given state. -/
inductive Makes (state : CompileState) : Instruction → String → LayerKind → Prop where
  | layer {spec : LayerSpec} {kind : LayerKind} (declared : spec.layerKind = .ok kind)
      (unknown : spec.isInput = true → state.globalInput? spec.name = none) :
      Makes state (.layer spec) spec.name kind
  | autoInput {source target : String} (wanted : state.wantsInput source = true) :
      Makes state (.connect source target) source (.input (some 1) none)
  | moduleDef {name : String} {inputs outputs : List String} {body : List Instruction}
      {gathered : List LayerId} :
      Makes state (.moduleDef name inputs outputs body) name (.composite gathered)
  | branch {name : Option String} {test : Instruction} {body alternative : List Instruction}
      {layerName text : String} {thenRoot elseRoot : Option LayerId}
      (named : ∀ given, name = some given → layerName = given) :
      Makes state (.branch name test body alternative) layerName
        (.conditional text thenRoot elseRoot)

/-- A single step of a visit of an instruction that stands in a scope. -/
inductive OwnStep (instruction : Instruction) (scope : ScopeId) :
    CompileState → CompileState → Prop where
  | still {before after : CompileState} (still : before.Still after) :
      OwnStep instruction scope before after
  | enters {before : CompileState} (here : before.current = scope) :
      OwnStep instruction scope before before.entered
  | makes {before : CompileState} {name : String} {kind : LayerKind}
      (here : before.current = scope) (makes : Makes before instruction name kind) :
      OwnStep instruction scope before (before.withLayer name kind)
  | shares {before : CompileState} {spec : LayerSpec} {id : LayerId}
      (here : before.current = scope) (declares : instruction = .layer spec)
      (isInput : spec.isInput = true) (known : before.globalInput? spec.name = some id) :
      OwnStep instruction scope before (before.registered spec.name id)

/-- Steps of a kind and visits that lead from one state to another. -/
inductive Way (Step : CompileState → CompileState → Prop) :
    CompileState → List Visit → CompileState → Prop where
  | done (state : CompileState) : Way Step state [] state
  | step {before between after : CompileState} {inner : List Visit} (step : Step before between)
      (rest : Way Step between inner after) : Way Step before inner after
  | visit {visit : Visit} {inner : List Visit} {after : CompileState}
      (rest : Way Step visit.after inner after) : Way Step visit.before (visit :: inner) after

section Ways

variable {Step : CompileState → CompileState → Prop} {before between after : CompileState}
  {inner first second : List Visit} {instruction : Instruction} {scope : ScopeId}

/-- A step of its own only adds. -/
theorem OwnStep.grows (step : OwnStep instruction scope before after) : before.GrowsTo after := by
  cases step with
  | still still => exact still.grows
  | enters => exact (leadsTo_entered before).grows
  | makes => exact grows_withLayer _ _ _
  | shares => exact grows_registered _ _ _

theorem Way.append (earlier : Way Step before first between) (later : Way Step between second after) :
    Way Step before (first ++ second) after := by
  induction earlier with
  | done => exact later
  | step step _ inductionHypothesis => exact .step step (inductionHypothesis later)
  | visit _ inductionHypothesis => exact .visit (inductionHypothesis later)

theorem Way.then_step (earlier : Way Step before inner between) (step : Step between after) :
    Way Step before inner after := by
  have whole := earlier.append (.step step (.done after))
  rwa [List.append_nil] at whole

theorem Way.imp {Other : CompileState → CompileState → Prop} (way : Way Step before inner after)
    (each : ∀ {before after}, Step before after → Other before after) :
    Way Other before inner after := by
  induction way with
  | done => exact .done _
  | step step _ inductionHypothesis => exact .step (each step) inductionHypothesis
  | visit _ inductionHypothesis => exact .visit inductionHypothesis

/-- A way of steps that only add leads to a later stage. -/
theorem Way.grows (way : Way Step before inner after)
    (each : ∀ {before after}, Step before after → before.GrowsTo after) (grow : AllGrow inner) :
    before.GrowsTo after := by
  induction way with
  | done => exact .refl _
  | step step _ inductionHypothesis => exact (each step).trans (inductionHypothesis grow)
  | visit _ inductionHypothesis =>
      obtain ⟨head, tail⟩ := List.forall_mem_cons.1 grow
      exact head.trans (inductionHypothesis tail)

/-- What is there after a way, was not there before it and did not come with a visit, came with a
step. -/
theorem Way.exists_step (Has : CompileState → Prop) (way : Way Step before inner after)
    (each : ∀ {before after}, Step before after → before.GrowsTo after) (grow : AllGrow inner)
    (fresh : ¬ Has before) (present : Has after)
    (noVisit : ∀ below ∈ inner, ¬ Has below.after ∨ Has below.before) :
    ∃ start finish, Step start finish ∧ ¬ Has start ∧ Has finish ∧ before.GrowsTo start ∧
      finish.GrowsTo after := by
  induction way with
  | done => exact absurd present fresh
  | @step before between after inner step rest inductionHypothesis =>
      by_cases came : Has between
      · exact ⟨before, between, step, fresh, came, .refl _, rest.grows each grow⟩
      · obtain ⟨start, finish, found, lacks, has, earlier, later⟩ :=
          inductionHypothesis grow came present noVisit
        exact ⟨start, finish, found, lacks, has, (each step).trans earlier, later⟩
  | visit _ inductionHypothesis =>
      obtain ⟨headGrows, tailGrow⟩ := List.forall_mem_cons.1 grow
      obtain ⟨headBrings, tailBrings⟩ := List.forall_mem_cons.1 noVisit
      obtain ⟨start, finish, found, lacks, has, earlier, later⟩ :=
        inductionHypothesis tailGrow (headBrings.resolve_right fresh) present tailBrings
      exact ⟨start, finish, found, lacks, has, headGrows.trans earlier, later⟩

/-- What is there after a way was there before it, or came with one of its steps or visits. -/
theorem Way.origin (Has : CompileState → Prop) {Origin : Prop} (way : Way Step before inner after)
    (steps : ∀ {before after}, Step before after → Has after → Has before ∨ Origin)
    (visited : ∀ visit ∈ inner, Has visit.after → Has visit.before ∨ Origin) (has : Has after) :
    Has before ∨ Origin := by
  induction way with
  | done => exact .inl has
  | step step _ inductionHypothesis =>
      rcases inductionHypothesis visited has with earlier | origin
      · exact steps step earlier
      · exact .inr origin
  | visit _ inductionHypothesis =>
      obtain ⟨head, tail⟩ := List.forall_mem_cons.1 visited
      rcases inductionHypothesis tail has with earlier | origin
      · exact head earlier
      · exact .inr origin

/-- What steps and visits keep holds behind them. -/
theorem Way.keeps {Holds : CompileState → Prop} (way : Way Step before inner after)
    (steps : ∀ {before after}, Step before after → Holds before → Holds after)
    (visited : ∀ visit ∈ inner, Holds visit.before → Holds visit.after) (holds : Holds before) :
    Holds after := by
  induction way with
  | done => exact holds
  | step step _ inductionHypothesis => exact inductionHypothesis visited (steps step holds)
  | visit _ inductionHypothesis =>
      obtain ⟨head, tail⟩ := List.forall_mem_cons.1 visited
      exact inductionHypothesis tail (head holds)

/-- A way leads to each of its visits by a part of it. -/
theorem Way.up_to (way : Way Step before inner after) {visit : Visit} (member : visit ∈ inner) :
    ∃ earlier, earlier ⊆ inner ∧ Way Step before earlier visit.before := by
  induction way with
  | done => cases member
  | step step _ inductionHypothesis =>
      obtain ⟨earlier, part, way⟩ := inductionHypothesis member
      exact ⟨earlier, part, .step step way⟩
  | @visit head _ _ _ inductionHypothesis =>
      rcases List.mem_cons.1 member with rfl | later
      · exact ⟨[], List.nil_subset _, .done _⟩
      · obtain ⟨earlier, part, way⟩ := inductionHypothesis later
        exact ⟨head :: earlier, List.cons_subset_cons _ part, .visit way⟩

end Ways

/-! ## Constructs as ways -/

section Constructs

variable {before after : CompileState} {inner : List Visit} {instruction : Instruction}
  {scope : ScopeId}

/-- The visits of a body are a way. -/
theorem Sequence.way {Step : CompileState → CompileState → Prop}
    {Matches : Instruction → Visit → Prop} {body : List Instruction}
    (sequence : Sequence Matches body before inner after) : Way Step before inner after := by
  induction sequence with
  | done state => exact .done state
  | next _ _ inductionHypothesis => exact .visit inductionHypothesis

/-- The visits of a loop are a way. -/
theorem Rounds.way {Step : CompileState → CompileState → Prop} {counter : String}
    {body : List Instruction} {count : Nat} {value : Int}
    (rounds : Rounds counter body count value before inner after) :
    Way Step before inner after := by
  induction rounds with
  | done _ state => exact .done state
  | round filled _ inductionHypothesis => exact filled.way.append inductionHypothesis

/-- The visits of a module are a way. -/
theorem Children.way {Step : CompileState → CompileState → Prop} {start : Nat}
    {gathered all : List LayerId} {body : List Instruction}
    (children : Children start gathered body before inner all after) :
    Way Step before inner after := by
  induction children with
  | done => exact .done _
  | next gathers _ inductionHypothesis =>
      obtain ⟨_, rfl⟩ := runs_gather.1 gathers
      exact .visit inductionHypothesis

theorem Ensured.way {endpoint : String} (ensured : Ensured scope endpoint before inner after) :
    Way Still before inner after := by
  rcases ensured.cases with ⟨_, rfl, rfl⟩ | ⟨_, ahead⟩
  · exact .done _
  · cases ahead.outcome with
    | skipped => exact .done _
    | turned started _ finished =>
        exact .step (isQuiet_startAhead _ _ _ _ started).still
          (.visit (.step (isQuiet_finishAhead _ _ _ _ _ finished).still (.done _)))

private theorem way_of_autoInput {source target : String}
    (ran : Runs (autoInput source) before () after) :
    Way (OwnStep (.connect source target) before.current) before [] after := by
  rcases runs_autoInput ran with ⟨wanted, quiet⟩ | ⟨_, rfl⟩
  · exact .step (.makes rfl (.autoInput wanted)) (.step (.still quiet.still) (.done _))
  · exact .done _

theorem still_of_finishConnect {source target : String}
    (ran : Runs (finishConnect scope source target) before () after) : before.Still after := by
  obtain ⟨nodes, scopes, inputCache⟩ := same_of_finishConnect ran
  exact ⟨(settles_of_finishConnect ran).grows, nodes, scopes, inputCache⟩

private theorem way_of_layer {spec : LayerSpec} (ran : Runs (layer spec) before () after) :
    Way (OwnStep (.layer spec) before.current) before [] after := by
  cases layer_outcome ran with
  | passed _ quiet | present _ _ _ _ quiet => exact .step (.still quiet.still) (.done _)
  | shared _ isInput known quiet =>
      exact .step (.shares rfl rfl isInput known) (.step (.still quiet.still) (.done _))
  | added _ unknown declared quiet =>
      exact .step (.makes rfl (.layer declared unknown)) (.step (.still quiet.still) (.done _))

/-- A branch is compiled in a scope inside the one it stands in. -/
theorem Rooted.way {label : String} {body : List Instruction} {root : Option LayerId}
    (rooted : Rooted label body before inner root after) (here : before.current = scope) :
    Way (OwnStep instruction scope) before inner after := by
  cases rooted with
  | absent => exact .done _
  | compiled entered filled left =>
      have parent := parent_of_enterBranch entered
      obtain ⟨_, drawn, _, draws, _, _, rfl⟩ := runs_enterBranch entered
      have quiet := (draws_of_freshSuffix draws).quiet
      rw [← quiet.scopes, parent?_entered] at parent
      exact .step (.still quiet.still) (.step (.enters ((Option.some.inj parent).trans here))
        (filled.way.then_step (.still (runs_leaveBranch left).1.still)))

theorem still_of_finishBranch {plan : BranchPlan} {thenRoot elseRoot : Option LayerId}
    (ran : Runs (finishBranch plan thenRoot elseRoot) before () after) :
    (before.withLayer plan.layerName (.conditional plan.text thenRoot elseRoot)).Still after := by
  obtain ⟨_, rfl, grows, _, nodes, scopes, inputCache⟩ := same_of_finishBranch ran
  exact ⟨grows, nodes, scopes, inputCache⟩

/-- A visit is a way of its own steps and the visits below it. -/
theorem Unfolds.way (unfolds : Unfolds instruction before inner after)
    (tracked : ∀ visit ∈ inner, Tracked visit) :
    Way (OwnStep instruction before.current) before inner after := by
  cases unfolds with
  | program sequence => exact sequence.way
  | block sequence => exact sequence.way
  | layer ran => exact way_of_layer ran
  | connect starts sourceEnsured targetEnsured finishes =>
      obtain ⟨adds, rfl⟩ := runs_autoInput_of_startConnect starts
      exact (way_of_autoInput adds).append
        (((sourceEnsured.way.append targetEnsured.way).then_step
          (still_of_finishConnect finishes)).imp .still)
  | moduleTaken takes logs =>
      exact .step (.still (isQuiet_takeAhead _ _ _ _ _ takes).still)
        (.step (.still (isQuiet_log _ _ _ _ logs).still) (.done _))
  | moduleDef takes logs children finishes =>
      have quiet := (isQuiet_takeAhead _ _ _ _ _ takes).trans (isQuiet_log _ _ _ _ logs)
      have here := (children.course.stays tracked).trans
        ((keeps_log steady_current _ _ _ _ logs).trans (keepsScope_takeAhead _ _ _ _ _ takes))
      exact .step (.still quiet.still) ((children.way.then_step (.makes here .moduleDef)).then_step
        (.still (runs_finishModule finishes).still))
  | loop opens rounds =>
      exact .step (.still (isQuiet_loopRange _ _ _ _ _ _ _ opens).still) rounds.way
  | branch plans thenRooted elseRooted finishes =>
      obtain ⟨quiet, _, named, _⟩ := runs_planBranch plans
      have here := keeps_planBranch steady_current _ _ _ _ _ _ _ plans
      have between := thenRooted.stays.trans here
      have finish := elseRooted.stays.trans between
      exact .step (.still quiet.still)
        ((Way.then_step ((thenRooted.way here).append (elseRooted.way between))
          (.makes finish (.branch named))).then_step (.still (still_of_finishBranch finishes)))
  | templateDef ran =>
      exact .step (.still (isQuiet_templateDef _ _ _ _ _ _ ran).still) (.done _)
  | templateCall opens filled =>
      exact .step (.still (runs_openTemplate opens).1.quiet.still) filled.way
  | call opens filled =>
      exact .step (.still (runs_openTemplate opens).1.quiet.still) filled.way
  | expand opens sequence =>
      exact .step (.still (isQuiet_startExpand _ _ _ _ _ _ opens).still) sequence.way

end Constructs

end Compile

namespace Visit

open Compile

variable {visit root : Visit} {Has : CompileState → Prop} {Origin : Prop}

section Origins

variable {Step : Visit → CompileState → CompileState → Prop}

private theorem Faithful.origin (Has : CompileState → Prop) (faithful : visit.Faithful)
    (ways : ∀ {outer : Visit}, outer.Faithful →
      Way (Step outer) outer.before outer.inner outer.after)
    (steps : ∀ outer : Visit, outer.Within visit → ∀ {before after}, Step outer before after →
      Has after → Has before ∨ Origin)
    (has : Has visit.after) : Has visit.before ∨ Origin := by
  induction faithful with
  | @intro visit unfolds inner inductionHypothesis =>
      refine (ways (.intro unfolds inner)).origin Has (steps visit (.self visit))
        (fun below isInner => ?_) has
      exact inductionHypothesis below isInner fun outer within => steps outer (.under isInner within)

/-- What steps do not bring is there at the start of a visit only if it was there at the start of
the run. -/
theorem Faithful.origin_before (Has : CompileState → Prop) (faithful : root.Faithful)
    (within : visit.Within root)
    (ways : ∀ {outer : Visit}, outer.Faithful →
      Way (Step outer) outer.before outer.inner outer.after)
    (steps : ∀ outer : Visit, outer.Within root → ∀ {before after}, Step outer before after →
      Has after → Has before ∨ Origin)
    (has : Has visit.before) : Has root.before ∨ Origin := by
  induction within with
  | self => exact .inl has
  | @under middle outer isInner _ inductionHypothesis =>
      have inMiddle := inductionHypothesis (faithful.ofInner isInner)
        fun outer within => steps outer (.under isInner within)
      rcases inMiddle with earlier | origin
      · obtain ⟨before, part, way⟩ := (ways faithful).up_to isInner
        refine way.origin Has (steps outer (.self outer)) (fun below isBelow => ?_) earlier
        exact (faithful.ofInner (part isBelow)).origin Has ways fun inner within =>
          steps inner (.under (part isBelow) within)
      · exact .inr origin

/-- What steps do not bring is there at the end of a visit only if it was there at the start of the
run. -/
theorem Faithful.origin_after (Has : CompileState → Prop) (faithful : root.Faithful)
    (within : visit.Within root)
    (ways : ∀ {outer : Visit}, outer.Faithful →
      Way (Step outer) outer.before outer.inner outer.after)
    (steps : ∀ outer : Visit, outer.Within root → ∀ {before after}, Step outer before after →
      Has after → Has before ∨ Origin)
    (has : Has visit.after) : Has root.before ∨ Origin := by
  rcases (faithful.within within).origin Has ways
    (fun outer lower => steps outer (lower.trans within)) has with earlier | origin
  · exact faithful.origin_before Has within ways steps earlier
  · exact .inr origin

end Origins

/-- Every visit is a way from its beginning to its end. -/
theorem Faithful.way (faithful : visit.Faithful) :
    Way (OwnStep visit.instruction visit.before.current) visit.before visit.inner visit.after :=
  faithful.unfolds.way fun _ member => tracked_of_faithful (faithful.ofInner member)

/-- What a visit brings, it brings in a step of its own. -/
theorem Brings.exists_step (brings : visit.Brings Has) (faithful : visit.Faithful) :
    ∃ start finish, OwnStep visit.instruction visit.before.current start finish ∧ ¬ Has start ∧
      Has finish ∧ visit.before.GrowsTo start ∧ finish.GrowsTo visit.after :=
  faithful.way.exists_step Has OwnStep.grows faithful.allGrow brings.fresh brings.present
    brings.inner

/-- A visit adds a layer in a step of its own. -/
def Adds (id : LayerId) (visit : Visit) : Prop :=
  visit.Brings fun state => id < state.network.size

/-- A visit adds a layer where it makes one, in the scope in which it stands. -/
theorem Adds.exists_step {id : LayerId} (adds : visit.Adds id) (faithful : visit.Faithful) :
    ∃ start key kind, Makes start visit.instruction key kind ∧ id = start.network.size ∧
      start.current = visit.before.current ∧ visit.before.GrowsTo start ∧
      (start.withLayer key kind).GrowsTo visit.after := by
  obtain ⟨start, finish, step, absent, came, earlier, later⟩ := Brings.exists_step adds faithful
  cases step with
  | still still =>
      rw [← Network.length_nodes, still.nodes, Network.length_nodes] at came
      exact absurd came absent
  | enters | shares => exact absurd came absent
  | @makes key kind here makes =>
      rw [← Network.length_nodes, CompileState.nodes_withLayer, List.length_append,
        Network.length_nodes] at came
      have size : id = start.network.size :=
        Nat.le_antisymm (Nat.le_of_lt_succ came) (Nat.not_lt.1 absent)
      exact ⟨start, key, kind, makes, size, here, earlier, later⟩

/-- A layer that a visit adds has the name and the kind that its instruction asks for. -/
theorem Adds.exists_makes {id : LayerId} (adds : visit.Adds id) (faithful : visit.Faithful) :
    ∃ start layer, Makes start visit.instruction layer.name layer.kind ∧
      visit.after.network.layer? id = some layer := by
  obtain ⟨start, key, kind, makes, rfl, _, _, later⟩ := adds.exists_step faithful
  obtain ⟨layer, found, node⟩ :=
    later.network.layer? (Network.layer?_addLayer_size start.network key kind)
  have isNamed : layer.name = key := Layer.name_eq_of_node node
  have isKind : layer.kind = kind := Layer.kind_eq_of_node node
  exact ⟨start, layer, isNamed ▸ isKind ▸ makes, found⟩

/-- What comes up in a run is brought by a visit. -/
theorem Faithful.exists_brings (Has : CompileState → Prop) (faithful : root.Faithful)
    (fresh : ¬ Has root.before) (present : Has root.after) :
    ∃ visit : Visit, visit.Within root ∧ visit.Brings Has := by
  induction faithful with
  | @intro root _ _ inductionHypothesis =>
      by_cases deeper : ∃ below ∈ root.inner, ¬ Has below.before ∧ Has below.after
      · obtain ⟨below, member, lacks, has⟩ := deeper
        obtain ⟨visit, within, brings⟩ := inductionHypothesis below member lacks has
        exact ⟨visit, .under member within, brings⟩
      · refine ⟨root, .self root, fresh, present, fun below member => ?_⟩
        by_cases has : Has below.after
        · exact .inr (Classical.byContradiction fun lacks => deeper ⟨below, member, lacks, has⟩)
        · exact .inl has

/-- What own steps keep holds wherever a visit starts and ends. -/
theorem Faithful.keeps {Holds : CompileState → Prop} (faithful : root.Faithful)
    (within : visit.Within root)
    (steps : ∀ {instruction scope before after}, OwnStep instruction scope before after →
      Holds before → Holds after)
    (start : Holds root.before) : Holds visit.before ∧ Holds visit.after := by
  have back : ∀ outer : Visit, outer.Within root → ∀ {before after},
      OwnStep outer.instruction outer.before.current before after → ¬ Holds after →
        ¬ Holds before ∨ False :=
    fun _ _ _ _ step broken => .inl fun holds => broken (steps step holds)
  constructor
  · refine Classical.byContradiction fun broken => ?_
    have origin := faithful.origin_before (fun state => ¬ Holds state) within
      (fun outer => outer.way) back broken
    exact origin.resolve_right id start
  · refine Classical.byContradiction fun broken => ?_
    have origin := faithful.origin_after (fun state => ¬ Holds state) within
      (fun outer => outer.way) back broken
    exact origin.resolve_right id start

end Visit

namespace Compile

open CompileState

variable {name : String} {seed : UInt64} {program : Instruction} {compiled : Compiled}
  {root visit : Visit} {scope : ScopeId}

/-- Every visit of a run stands in a scope that is there. -/
theorem RootOf.inside (rootOf : RootOf name seed program compiled root)
    (within : visit.Within root) : Inside visit.before := by
  have grows := (rootOf.faithful.around within).1
  have rootInside : Inside root.before := by
    have quiet := isQuiet_prepare _ _ _ _ _ rootOf.prepared
    rw [Inside, rootOf.gains.1, quiet.scopes]
    exact Nat.zero_lt_one
  rcases scope_of_within rootOf.faithful within with same | atRoot |
    ⟨branch, _, below, side, _, start, left, branchWithin, _, sideOf, isInside, belowSide, _⟩
  · exact rootInside.of_stays grows same
  · exact rootInside.at_root grows atRoot
  · have branchFaithful := rootOf.faithful.within branchWithin
    have startGrows := (sideOf.sided.trail.around
      (fun below part => (branchFaithful.ofInner (sideOf.part part)).grows) isInside).1
    have belowGrows := ((branchFaithful.ofInner (sideOf.part isInside)).around belowSide).1
    refine Nat.lt_of_lt_of_le ?_ (startGrows.trans belowGrows).scopes_size_le
    rw [sideOf.sided.size]
    exact Nat.lt_succ_self _

/-- Every layer was added by a visit. -/
theorem RootOf.exists_adds (rootOf : RootOf name seed program compiled root) {id : LayerId}
    {layer : Layer} (found : root.after.network.layer? id = some layer) :
    ∃ visit : Visit, visit.Within root ∧ visit.Adds id := by
  have fresh : ¬ id < root.before.network.size := by
    have quiet := isQuiet_prepare _ _ _ _ _ rootOf.prepared
    rw [← Network.length_nodes, quiet.nodes]
    exact Nat.not_lt_zero id
  exact rootOf.faithful.exists_brings (fun state => id < state.network.size) fresh
    (Network.lt_size_of_layer? found)

/-- Every layer was made by a visit, as the instruction of the visit asks for it. -/
theorem RootOf.origin_of_layer (rootOf : RootOf name seed program compiled root) {id : LayerId}
    {layer : Layer} (found : root.after.network.layer? id = some layer) :
    ∃ visit start, Visit.Within visit root ∧ visit.Adds id ∧
      Makes start visit.instruction layer.name layer.kind := by
  obtain ⟨visit, within, adds⟩ := rootOf.exists_adds found
  have faithful := rootOf.faithful.within within
  obtain ⟨start, made, makes, isMade⟩ := Visit.Adds.exists_makes adds faithful
  obtain ⟨same, isSame, node⟩ := (rootOf.faithful.around within).2.network.layer? isMade
  cases isSame.symm.trans found
  refine ⟨visit, start, within, adds, ?_⟩
  rwa [Layer.name_eq_of_node node, Layer.kind_eq_of_node node]

end Compile

end NetBlueprint
