import NetBlueprint.Proofs.Compiler.Books
import NetBlueprint.Proofs.Compiler.Children
import NetBlueprint.Proofs.Compiler.Connections
import NetBlueprint.Proofs.Compiler.Instances

/-!
Contract: the layers of a network, accounted for by the instances of the program.

Every layer that is added belongs to an instance of the unrolled program, but some are added before
the run comes to their instance. Such a layer is owed from when it is compiled ahead until its
declaration is met and passed over. At every moment, the layers are those of the instances that
were come to and those that are owed; what is still owed at the end was added once too often.

Owns: what is owed, and the account of a whole run.

Does not own: when nothing is owed at the end.
-/

namespace NetBlueprint

def LayerKind.groups : LayerKind → Bool
  | .composite _ => true
  | _ => false

theorem LayerKind.IsDeclared.plain {isInput isOutput : Bool} {kind : LayerKind}
    (declared : kind.IsDeclared isInput isOutput) (noInput : isInput = false) :
    kind.groups = false ∧ kind.isInput = false := by
  cases kind with
  | input _ _ =>
      rw [show isInput = true from declared] at noInput
      cases noInput
  | composite _ => exact declared.elim
  | _ => exact ⟨rfl, rfl⟩

def Layer.heading (layer : Layer) : Heading :=
  (layer.name, layer.kind.groups)

namespace Network

def headings (network : Network) : List Heading :=
  network.layers.toList.map Layer.heading

theorem headings_eq (network : Network) : network.headings = network.nodes.map Layer.heading := by
  rw [headings, nodes, List.map_map]
  rfl

def HasNoInput (network : Network) : Prop :=
  ∀ node ∈ network.nodes, node.kind.isInput = false

end Network

namespace Books

def owedFor (books : Books) (name : String) : List Heading :=
  ((books.registry.lookup name).bind (Instruction.unrolled [])).getD []

/-- The layers that were added for declarations that are still to be met. -/
def owed (books : Books) : List Heading :=
  books.compiledAhead.flatMap books.owedFor

/-- Every name is compiled ahead at most once and is registered until its declaration is met, and
what is registered is plain and goes by its own name. -/
structure Orderly (books : Books) : Prop where
  once : (books.compiledAhead ++ books.aheadInProgress).Nodup
  waiting : ∀ name ∈ books.compiledAhead, ∃ instruction headings,
    books.registry.lookup name = some instruction ∧
      instruction.unrolled [] = some headings ∧ headings ≠ []
  registered : ∀ {name instruction}, books.registry.lookup name = some instruction →
    instruction.isPlain = true ∧ instruction.forwardName? = some name

private theorem lookup_filter {registry : List (String × Instruction)} {name other : String} :
    (registry.filter fun entry => entry.1 != name).lookup other =
      if other = name then none else registry.lookup other := by
  induction registry with
  | nil => simp
  | cons entry rest inductionHypothesis =>
      obtain ⟨key, instruction⟩ := entry
      by_cases dropped : key = name
      · subst dropped
        rw [List.filter_cons_of_neg (by simp), inductionHypothesis, List.lookup_cons]
        split
        · rfl
        · rename_i apart
          rw [beq_false_of_ne apart]
      · rw [List.filter_cons_of_pos (by simpa using dropped), List.lookup_cons, List.lookup_cons,
          inductionHypothesis]
        split
        · rename_i same
          rw [if_neg (by rw [eq_of_beq same]; exact dropped)]
        · rfl

end Books

namespace Compile

structure Ready (state : CompileState) : Prop where
  books : state.books.Orderly
  noInput : state.network.HasNoInput

/-- From one state to another some instances are come to: their layers are added or were owed, and
other layers are added only where they are owed. -/
structure Adds (headings : List Heading) (before after : CompileState) : Prop where
  ready : Ready after
  inProgress : after.aheadInProgress = before.aheadInProgress
  underway : ∀ name ∈ before.aheadInProgress,
    after.registry.lookup name = before.registry.lookup name
  shrinks : ∀ {name instruction}, after.registry.lookup name = some instruction →
    before.registry.lookup name = some instruction
  count : ∀ heading,
    after.network.headings.count heading + before.books.owed.count heading =
      before.network.headings.count heading + headings.count heading +
        after.books.owed.count heading

section Account

variable {before between after : CompileState} {one other headings : List Heading}

theorem Adds.trans (first : Adds one before between) (second : Adds other between after) :
    Adds (one ++ other) before after where
  ready := second.ready
  inProgress := second.inProgress.trans first.inProgress
  underway name member := by
    rw [second.underway name (first.inProgress ▸ member), first.underway name member]
  shrinks found := first.shrinks (second.shrinks found)
  count heading := by
    have firstCount := first.count heading
    have secondCount := second.count heading
    rw [List.count_append]
    omega

/-- Layers that are added without a look at the books. -/
theorem Adds.of_nodes (ready : Ready before) (books : after.books = before.books)
    (nodes : List Layer) (noInput : ∀ node ∈ nodes, node.kind.isInput = false)
    (added : after.network.nodes = before.network.nodes ++ nodes) :
    Adds (nodes.map Layer.heading) before after where
  ready := by
    refine ⟨books ▸ ready.books, fun node member => ?_⟩
    rw [added] at member
    exact (List.mem_append.1 member).elim (ready.noInput node) (noInput node)
  inProgress := congrArg Books.aheadInProgress books
  underway name _ := congrArg (fun books => books.registry.lookup name) books
  shrinks found := by
    have same := congrArg Books.registry books
    rwa [show after.registry = before.registry from same] at found
  count heading := by
    rw [books, Network.headings_eq, Network.headings_eq, added, List.map_append, List.count_append]

/-- A step that leaves layers and books alone adds nothing. -/
theorem Adds.of_same (ready : Ready before) (books : after.books = before.books)
    (nodes : after.network.nodes = before.network.nodes) : Adds [] before after :=
  .of_nodes ready books [] (fun _ => (absurd · List.not_mem_nil)) (by rw [nodes, List.append_nil])

theorem Adds.logged (adds : Adds headings before after) (line : String) :
    Adds headings before (after.logged line) :=
  ⟨⟨adds.ready.books, adds.ready.noInput⟩, adds.inProgress, adds.underway, adds.shrinks,
    adds.count⟩

section Taking

variable {name : String} {instruction : Instruction} (takes : Takes name instruction before after)

include takes

/-- A name that is taken off the books is registered no more, and nothing else changes. -/
theorem Takes.lookup_eq (other : String) : after.registry.lookup other =
    if other = name then none else before.registry.lookup other := by
  have registry := congrArg Books.registry takes.books
  rw [show after.registry = _ from registry, Books.lookup_filter]

theorem Takes.lookup_of_ne {other : String} (apart : other ≠ name) :
    after.registry.lookup other = before.registry.lookup other := by
  rw [takes.lookup_eq, if_neg apart]

theorem Takes.shrinks {other : String} {found : Instruction}
    (registered : after.registry.lookup other = some found) :
    before.registry.lookup other = some found := by
  rw [takes.lookup_eq] at registered
  split at registered
  · cases registered
  · exact registered

/-- What is owed for the other names stays owed. -/
theorem Takes.owed_perm (once : before.compiledAhead.Nodup) :
    before.books.owed.Perm (before.books.owedFor name ++ after.books.owed) := by
  have compiled : after.compiledAhead = before.compiledAhead.erase name :=
    congrArg Books.compiledAhead takes.books
  have others : after.books.owed =
      (before.compiledAhead.erase name).flatMap before.books.owedFor := by
    refine (congrArg (List.flatMap _) compiled).trans (List.flatMap_congr fun other member => ?_)
    have same : after.books.registry.lookup other = before.books.registry.lookup other :=
      takes.lookup_of_ne (once.mem_erase_iff.1 member).1
    rw [Books.owedFor, same, Books.owedFor]
  rw [others, ← List.flatMap_cons]
  exact (List.perm_cons_erase takes.compiled).flatMap_right _

end Taking

/-- The layers of an instruction that was compiled ahead are not owed any more. -/
theorem Adds.of_takes {name : String} {instruction : Instruction} (ready : Ready before)
    (takes : Takes name instruction before after)
    (nodes : after.network.nodes = before.network.nodes) :
    ∃ headings, instruction.unrolled [] = some headings ∧ Adds headings before after := by
  obtain ⟨found, headings, registered, unrolled, _⟩ := ready.books.waiting name takes.compiled
  obtain ⟨same, sameRegistered, agrees⟩ := takes.registered
  cases registered.symm.trans sameRegistered
  refine ⟨headings, (Instruction.unrolled_of_same [] agrees).symm.trans unrolled, ?_⟩
  have once := ready.books.once
  have compiledOnce := (List.nodup_append.1 once).1
  have compiled := congrArg Books.compiledAhead takes.books
  have inProgress := congrArg Books.aheadInProgress takes.books
  have first : before.books.owedFor name = headings := by
    rw [Books.owedFor, show before.books.registry.lookup name = some found from registered,
      Option.bind_some, unrolled, Option.getD_some]
  refine ⟨⟨⟨?_, ?_, ?_⟩, fun node member => ready.noInput node (nodes ▸ member)⟩, inProgress, ?_,
    takes.shrinks, ?_⟩
  · rw [compiled, inProgress]
    exact once.sublist ((List.erase_sublist).append_right _)
  · intro other member
    rw [compiled] at member
    obtain ⟨apart, earlier⟩ := compiledOnce.mem_erase_iff.1 member
    obtain ⟨instruction, others, found, rest⟩ := ready.books.waiting other earlier
    exact ⟨instruction, others, (takes.lookup_of_ne apart).trans found, rest⟩
  · intro other instruction found
    exact ready.books.registered (takes.shrinks found)
  · intro other member
    refine takes.lookup_of_ne ?_
    rintro rfl
    exact (List.nodup_append.1 once).2.2 _ takes.compiled _ member rfl
  · intro heading
    have parted := (takes.owed_perm compiledOnce).count_eq heading
    rw [first, List.count_append] at parted
    rw [Network.headings_eq, nodes, ← Network.headings_eq, parted]
    omega

/-! ## Names compiled ahead -/

def AccountedFor (visit : Visit) : Prop :=
  visit.instruction.isPlain = true → Ready visit.before →
    ∃ headings, visit.instruction.unrolled [] = some headings ∧
      Adds headings visit.before visit.after

private theorem ne_nil_of_forwardName? {instruction : Instruction} {name : String}
    {headings : List Heading}
    (forward : instruction.forwardName? = some name)
    (noTemplate : ∀ declared parameters body, instruction ≠ .templateDef declared parameters body)
    (unrolled : instruction.unrolled [] = some headings) : headings ≠ [] := by
  cases instruction with
  | layer spec =>
      cases unrolled
      exact List.cons_ne_nil _ _
  | moduleDef name inputs outputs body =>
      rw [Instruction.unrolled] at unrolled
      obtain ⟨inner, _, rest⟩ := Option.bind_eq_some_iff.1 unrolled
      obtain ⟨own, _, same⟩ := Option.bind_eq_some_iff.1 rest
      cases same
      exact List.append_ne_nil_of_right_ne_nil _ (List.cons_ne_nil _ _)
  | templateDef declared parameters body => exact absurd rfl (noTemplate declared parameters body)
  | _ => cases forward

theorem Ready.of_turns {name : String} {instruction : Instruction} (ready : Ready before)
    (turns : Turns name instruction before after)
    (nodes : after.network.nodes = before.network.nodes) : Ready after := by
  refine ⟨⟨?_, ?_, ?_⟩, fun node member => ready.noInput node (nodes ▸ member)⟩
  · rw [turns.books]
    refine List.perm_middle.nodup_iff.2 (List.nodup_cons.2 ⟨?_, ready.books.once⟩)
    exact fun member => (List.mem_append.1 member).elim turns.notCompiled turns.notInProgress
  · rw [turns.books]
    exact ready.books.waiting
  · rw [turns.books]
    exact ready.books.registered

private theorem orderly_of_finishAhead {name : String} {instruction : Instruction}
    {saved : ScopeId} {finish : CompileState} (orderly : finish.books.Orderly)
    (finished : Runs (finishAhead name saved) finish () after) {underway : List String}
    (inProgress : finish.aheadInProgress = name :: underway)
    (named : finish.registry.lookup name = some instruction)
    (unrolled : instruction.unrolled [] = some headings) (nonempty : headings ≠ []) :
    after.books.Orderly := by
  rw [(runs_finishAhead finished).1]
  refine ⟨?_, ?_, orderly.registered⟩
  · have once : (finish.compiledAhead ++ finish.aheadInProgress).Nodup := orderly.once
    rw [inProgress] at once
    rw [inProgress, List.erase_cons_head]
    exact List.perm_middle.nodup_iff.1 once
  · intro other listed
    rcases List.mem_cons.1 listed with rfl | earlier
    · exact ⟨instruction, headings, named, unrolled, nonempty⟩
    · exact orderly.waiting other earlier

private theorem owed_of_finishAhead {name : String} {instruction : Instruction}
    {saved : ScopeId} {finish : CompileState}
    (finished : Runs (finishAhead name saved) finish () after)
    (named : finish.registry.lookup name = some instruction)
    (unrolled : instruction.unrolled [] = some headings) :
    after.books.owed = headings ++ finish.books.owed := by
  have first : finish.books.owedFor name = headings := by
    rw [Books.owedFor, show finish.books.registry.lookup name = _ from named, Option.bind_some,
      unrolled, Option.getD_some]
  rw [(runs_finishAhead finished).1, ← first]
  rfl

/-- The layers of an instruction that was compiled ahead are owed. -/
theorem Adds.of_turned {name : String} {instruction : Instruction} {start finish : CompileState}
    {saved : ScopeId} (ready : Ready before) (turns : Turns name instruction before start)
    (startNodes : start.network.nodes = before.network.nodes)
    (unrolled : instruction.unrolled [] = some headings) (adds : Adds headings start finish)
    (finished : Runs (finishAhead name saved) finish () after) : Adds [] before after := by
  obtain ⟨startRegistry, _, startInProgress⟩ := Books.mk.inj turns.books
  obtain ⟨finishRegistry, _, finishInProgress⟩ := Books.mk.inj (runs_finishAhead finished).1
  have nodes := (isQuiet_finishAhead _ _ _ _ _ finished).nodes
  have inProgress := adds.inProgress.trans startInProgress
  have named : finish.registry.lookup name = some instruction := by
    rw [adds.underway name (startInProgress ▸ List.mem_cons_self), startRegistry, turns.registered]
  have nonempty := ne_nil_of_forwardName? (ready.books.registered turns.registered).2
    turns.noTemplate unrolled
  have orderly :=
    orderly_of_finishAhead adds.ready.books finished inProgress named unrolled nonempty
  refine ⟨⟨orderly, fun node member => adds.ready.noInput node (nodes ▸ member)⟩, ?_, ?_, ?_, ?_⟩
  · rw [finishInProgress, inProgress, List.erase_cons_head]
  · intro other member
    rw [finishRegistry, adds.underway other (startInProgress ▸ List.mem_cons_of_mem _ member),
      startRegistry]
  · intro other found registered
    rw [finishRegistry] at registered
    have earlier := adds.shrinks registered
    rwa [startRegistry] at earlier
  · intro heading
    have count := adds.count heading
    have startOwed : start.books.owed = before.books.owed := by
      rw [turns.books]
      rfl
    rw [startOwed, Network.headings_eq start.network, startNodes, ← Network.headings_eq] at count
    rw [owed_of_finishAhead finished named unrolled, Network.headings_eq after.network, nodes,
      ← Network.headings_eq, List.count_append, List.count_nil]
    omega

/-- What is compiled ahead is added, and owed. -/
theorem Ahead.adds {name : String} {inner : List Visit} (ahead : Ahead name before inner after)
    (each : ∀ visit ∈ inner, AccountedFor visit) (ready : Ready before) : Adds [] before after := by
  cases ahead.outcome with
  | skipped => exact .of_same ready rfl rfl
  | @turned visit _ started turns finished =>
      have startNodes := (isQuiet_startAhead _ _ _ _ started).nodes
      have plain := (ready.books.registered turns.registered).1
      obtain ⟨headings, unrolled, adds⟩ :=
        each visit (List.mem_singleton_self _) plain (ready.of_turns turns startNodes)
      exact .of_turned ready turns startNodes unrolled adds finished

/-- What an endpoint is compiled ahead for is owed until its declaration is met. -/
theorem Ensured.adds {scope : ScopeId} {endpoint : String} {inner : List Visit}
    (ensured : Ensured scope endpoint before inner after)
    (each : ∀ visit ∈ inner, AccountedFor visit) (ready : Ready before) : Adds [] before after := by
  rcases ensured.cases with ⟨_, rfl, rfl⟩ | ⟨_, ahead⟩
  · exact .of_same ready rfl rfl
  · exact ahead.adds each ready

/-! ## Single steps -/

private theorem nodes_of_autoInput {name : String} (noInput : before.network.HasNoInput)
    (ran : Runs (autoInput name) before () after) :
    after.network.nodes = before.network.nodes := by
  rcases runs_autoInput ran with ⟨wanted, _⟩ | ⟨_, rfl⟩
  · rw [CompileState.wantsInput, Bool.and_eq_true] at wanted
    obtain ⟨layer, found, isInput⟩ := (Option.any_eq_true _ _).1 wanted.2
    obtain ⟨id, _, stored⟩ := Option.bind_eq_some_iff.1 found
    have member : layer.node ∈ before.network.nodes :=
      List.mem_map_of_mem (Network.mem_layers stored)
    have isNone : layer.kind.isInput = false := noInput layer.node member
    rw [isNone] at isInput
    cases isInput
  · rfl

/-- Without inputs no input is made up. -/
theorem nodes_of_startConnect {source target : String} {scope : ScopeId}
    (noInput : before.network.HasNoInput)
    (ran : Runs (startConnect source target) before scope after) :
    after.network.nodes = before.network.nodes :=
  nodes_of_autoInput noInput (runs_autoInput_of_startConnect ran).1

theorem nodes_of_finishConnect {scope : ScopeId} {source target : String}
    (ran : Runs (finishConnect scope source target) before () after) :
    after.network.nodes = before.network.nodes := by
  have rest := runs_get_bind.1 ran
  obtain ⟨_, recorded, records, outcome⟩ := runs_bind.1 rest
  have nodes : recorded.network.nodes = before.network.nodes := by
    rw [runs_modify.1 records]
  split at outcome
  · rw [(isQuiet_log _ _ _ _ outcome).nodes, nodes]
  · obtain ⟨_, logged, logs, issued⟩ := runs_bind.1 outcome
    rw [runs_modify.1 issued]
    exact (isQuiet_log _ _ _ _ logs).nodes.trans nodes

/-- A declaration adds its layer, unless it was owed. -/
theorem adds_of_layer {spec : LayerSpec} (ready : Ready before)
    (plain : (Instruction.layer spec).isPlain = true) (ran : Runs (layer spec) before () after) :
    Adds [(spec.name, false)] before after := by
  simp only [Instruction.isPlain, Bool.and_eq_true, Bool.not_eq_true'] at plain
  rcases (runs_layer plain.1 plain.2).1 ran with ⟨taken, takes, rfl⟩ | ⟨asked, asks, adds⟩
  · rcases runs_takeAhead takes with ⟨_, taking⟩ | ⟨isFalse, _⟩
    · have nodes := (isQuiet_takeAhead _ _ _ _ _ takes).nodes
      obtain ⟨headings, unrolled, adds⟩ := Adds.of_takes ready taking nodes
      cases unrolled
      exact adds.logged _
    · cases isFalse
  · rcases runs_takeAhead asks with ⟨isTrue, _⟩ | ⟨_, rfl, _⟩
    · cases isTrue
    · obtain ⟨kind, declared, rfl⟩ := runs_newLayer.1 adds
      obtain ⟨single, noInput⟩ := (LayerSpec.isDeclared_of_layerKind declared).plain plain.1
      have added : Adds [(spec.name, kind.groups)] asked (asked.withLayer spec.name kind) :=
        .of_nodes ready (books_withLayer asked spec.name kind)
          [⟨asked.network.size, spec.name, kind, [], []⟩] (by simpa using noInput)
          (asked.nodes_withLayer spec.name kind)
      rw [single] at added
      exact added.logged _

/-- The layer of a module comes behind those of its body. -/
theorem adds_of_finishModule {name : String} {gathered : List LayerId} (ready : Ready before)
    (ran : Runs (finishModule name gathered) before () after) :
    Adds [(name, true)] before after := by
  have nodes := (runs_finishModule ran).nodes.trans (before.nodes_withLayer _ _)
  exact .of_nodes ready (keeps_finishModule steady_books _ _ _ _ _ ran)
    [⟨before.network.size, name, .composite gathered, [], []⟩] (by simp; rfl) nodes

/-! ## Whole instructions -/

variable {inner : List Visit}

/-- A body adds what its instructions add, in their order. -/
theorem Sequence.adds {Matches : Instruction → Visit → Prop} (pending : List Substitution)
    {body : List Instruction} (sequence : Sequence Matches body before inner after)
    (each : ∀ visit ∈ inner, AccountedFor visit)
    (matching : ∀ template ∈ body, ∀ visit, Matches template visit →
      visit.instruction.isPlain = true ∧
        visit.instruction.unrolled [] = template.unrolled pending)
    (ready : Ready before) :
    ∃ headings, Instruction.unrolledAll pending body = some headings ∧
      Adds headings before after := by
  induction sequence with
  | done state => exact ⟨[], rfl, .of_same ready rfl rfl⟩
  | @next template rest visit _ _ isMatch _ inductionHypothesis =>
      obtain ⟨plain, same⟩ := matching template List.mem_cons_self visit isMatch
      obtain ⟨first, firstUnrolled, firstAdds⟩ := each visit List.mem_cons_self plain ready
      obtain ⟨others, othersUnrolled, othersAdd⟩ :=
        inductionHypothesis (fun visit member => each visit (List.mem_cons_of_mem _ member))
          (fun template member => matching template (List.mem_cons_of_mem _ member))
          firstAdds.ready
      refine ⟨first ++ others, ?_, firstAdds.trans othersAdd⟩
      rw [Instruction.unrolledAll, ← same, firstUnrolled, othersUnrolled]
      rfl

private theorem Sequence.adds_is {body : List Instruction}
    (sequence : Sequence Is body before inner after) (each : ∀ visit ∈ inner, AccountedFor visit)
    (plain : Instruction.isPlainAll body = true) (ready : Ready before) :
    ∃ headings, Instruction.unrolledAll [] body = some headings ∧ Adds headings before after := by
  refine sequence.adds [] each ?_ ready
  rintro template member visit rfl
  exact ⟨Instruction.isPlainAll_iff.1 plain _ member, rfl⟩

theorem isNumeric_roundSubstitution (counter : String) (value : Int) :
    (roundSubstitution counter value).IsNumeric := by
  refine ⟨?_, rfl⟩
  intro entry member
  cases List.mem_singleton.1 member
  exact ⟨value, rfl⟩

/-- A loop adds what its rounds add, in their order. -/
theorem Rounds.adds {counter : String} {body : List Instruction} {count : Nat} {value : Int}
    (rounds : Rounds counter body count value before inner after)
    (each : ∀ visit ∈ inner, AccountedFor visit) (plain : Instruction.isPlainAll body = true)
    (ready : Ready before) :
    ∃ headings,
      Instruction.gatherRounds
          (fun value => Instruction.unrolledAll [roundSubstitution counter value] body) count
          value = some headings ∧
        Adds headings before after := by
  induction rounds with
  | done value state => exact ⟨[], rfl, .of_same ready rfl rfl⟩
  | @round count value _ _ _ first rest filled _ inductionHypothesis =>
      have numeric := isNumeric_roundSubstitution counter value
      obtain ⟨headings, unrolled, adds⟩ :=
        filled.adds [roundSubstitution counter value]
          (fun visit member => each visit (List.mem_append_left _ member))
          (fun template member visit applied =>
            ⟨Instruction.isPlain_of_apply numeric applied
              (Instruction.isPlainAll_iff.1 plain _ member),
              Instruction.unrolled_of_apply [] applied⟩) ready
      obtain ⟨others, othersUnrolled, othersAdd⟩ :=
        inductionHypothesis (fun visit member => each visit (List.mem_append_right _ member))
          adds.ready
      refine ⟨headings ++ others, ?_, adds.trans othersAdd⟩
      rw [Instruction.gatherRounds, unrolled, othersUnrolled]
      rfl

theorem Children.sequence {start : Nat} {gathered all : List LayerId} {body : List Instruction}
    (children : Children start gathered body before inner all after) :
    Sequence Is body before inner after := by
  induction children with
  | done _ state => exact .done state
  | next gathers _ inductionHypothesis =>
      obtain ⟨_, rfl⟩ := runs_gather.1 gathers
      exact .next rfl inductionHypothesis

/-- A bound that a run evaluates is a bound under no substitution. -/
theorem boundUnder_of_evaluate {text : String} {value : Int}
    (evaluated : Expr.evaluate (unbracket text) = .ok value) :
    Instruction.boundUnder [] text = some value := by
  rw [Instruction.boundUnder, Substitution.fillAll, Option.bind_some, evaluated]
  rfl

/-- Every instruction that can be plain is accounted for. -/
theorem Unfolds.adds {instruction : Instruction}
    (unfolds : Unfolds instruction before inner after) (each : ∀ visit ∈ inner, AccountedFor visit)
    (plain : instruction.isPlain = true) (ready : Ready before) :
    ∃ headings, instruction.unrolled [] = some headings ∧ Adds headings before after := by
  cases unfolds with
  | program sequence => exact sequence.adds_is each plain ready
  | block sequence => exact sequence.adds_is each plain ready
  | layer ran => exact ⟨_, rfl, adds_of_layer ready plain ran⟩
  | connect starts sourceEnsured targetEnsured finishes =>
      have started : Adds [] before _ :=
        .of_same ready (keeps_startConnect steady_books _ _ _ _ _ starts)
        (nodes_of_startConnect ready.noInput starts)
      have sourceAdds := sourceEnsured.adds
        (fun visit member => each visit (List.mem_append_left _ member)) started.ready
      have targetAdds := targetEnsured.adds
        (fun visit member => each visit (List.mem_append_right _ member)) sourceAdds.ready
      have finished : Adds [] _ after := .of_same targetAdds.ready
        (keeps_finishConnect steady_books _ _ _ _ _ _ finishes) (nodes_of_finishConnect finishes)
      exact ⟨[], rfl, ((started.trans sourceAdds).trans targetAdds).trans finished⟩
  | moduleTaken takes logs =>
      rcases runs_takeAhead takes with ⟨_, taking⟩ | ⟨isFalse, _⟩
      · obtain ⟨headings, unrolled, adds⟩ :=
          Adds.of_takes ready taking (isQuiet_takeAhead _ _ _ _ _ takes).nodes
        rw [runs_log.1 logs]
        exact ⟨headings, unrolled, adds.logged _⟩
      · cases isFalse
  | moduleDef takes logs children finishes =>
      rcases runs_takeAhead takes with ⟨isTrue, _⟩ | ⟨_, rfl, _⟩
      · cases isTrue
      have logged : Adds [] _ _ := .of_same ready (keeps_log steady_books _ _ _ _ logs)
        (isQuiet_log _ _ _ _ logs).nodes
      obtain ⟨headings, unrolled, adds⟩ := children.sequence.adds_is each plain logged.ready
      have finished := adds_of_finishModule adds.ready finishes
      refine ⟨headings ++ [_], ?_, (logged.trans adds).trans finished⟩
      rw [Instruction.unrolled, unrolled]
      rfl
  | loop opens rounds =>
      obtain ⟨_, high, lowIs, highIs, isRange, _⟩ := runs_loopRange.1 opens
      obtain ⟨rfl, rfl⟩ := Prod.mk.inj isRange
      have opened : Adds [] before _ :=
        .of_same ready (keeps_loopRange steady_books _ _ _ _ _ _ _ opens)
        (isQuiet_loopRange _ _ _ _ _ _ _ opens).nodes
      obtain ⟨headings, unrolled, adds⟩ := rounds.adds each plain opened.ready
      refine ⟨headings, ?_, opened.trans adds⟩
      rw [Instruction.unrolled, boundUnder_of_evaluate lowIs, boundUnder_of_evaluate highIs]
      exact unrolled
  | branch _ _ _ _ => cases plain
  | templateDef ran =>
      exact ⟨[], rfl, .of_same ready (keeps_templateDef fixed_books _ _ _ _ _ _ ran)
        (isQuiet_templateDef _ _ _ _ _ _ ran).nodes⟩
  | templateCall _ _ => cases plain
  | call _ _ => cases plain
  | expand opens sequence =>
      have opened : Adds [] before _ :=
        .of_same ready (keeps_startExpand steady_books _ _ _ _ _ _ opens)
        (isQuiet_startExpand _ _ _ _ _ _ opens).nodes
      obtain ⟨headings, unrolled, adds⟩ := sequence.adds_is each plain opened.ready
      exact ⟨headings, unrolled, opened.trans adds⟩

end Account

end Compile

/-- Every visit is accounted for. -/
theorem Visit.Faithful.accountedFor {visit : Visit} (faithful : visit.Faithful) :
    Compile.AccountedFor visit := by
  induction faithful with
  | intro unfolds _ inductionHypothesis => exact unfolds.adds inductionHypothesis

end NetBlueprint
