import NetBlueprint.Proofs.Compiler.Accounting
import NetBlueprint.Proofs.Compiler.Registering

/-!
Contract: when everything that is compiled ahead is met in its order.

What is registered is offered by an instruction outside of loops, and the run comes to every such
instruction, or passes over a module that contains it and was compiled ahead itself. Once the run
has come to it, its name is closed: it is not compiled ahead any more, nor will it be. A name stays
open only where the run comes to an instruction while the same instruction is being compiled.

Owns: closed names, what closes them, and that nothing is owed at the end of a run that never comes
to a module inside itself.
-/

namespace NetBlueprint

namespace Visit

def Below (inner outer : Visit) : Prop :=
  ∃ middle ∈ outer.inner, Within inner middle

theorem Below.within {inner outer : Visit} (below : Below inner outer) : Within inner outer := by
  obtain ⟨middle, member, within⟩ := below
  exact .under member within

end Visit

namespace Compile

/-- A name is not registered any more, or its layer is there and it is neither compiled nor being
compiled ahead. -/
def Closed (state : CompileState) (name : String) : Prop :=
  state.registry.lookup name = none ∨
    (∃ id, state.network.Named name id) ∧ name ∉ state.compiledAhead ∧
      name ∉ state.aheadInProgress

/-- Where a module is compiled ahead, everything inside of it is closed. -/
def Settled (state : CompileState) : Prop :=
  ∀ name ∈ state.compiledAhead, ∀ instruction, state.registry.lookup name = some instruction →
    ∀ offered ∈ instruction.innerOffers, ∀ other,
      state.registry.lookup other = some offered → Closed state other

section Meeting

variable {registry : List (String × Instruction)}

structure Kept (registry : List (String × Instruction)) (state : CompileState) : Prop where
  ready : Ready state
  settled : Settled state
  remains : ∀ {name instruction}, state.registry.lookup name = some instruction →
    registry.lookup name = some instruction

/-- From one state to another some visits come to the instructions that are offered, and close
their names. -/
structure Meets (registry : List (String × Instruction)) (offered : List Instruction)
    (before : CompileState) (inner : List Visit) (after : CompileState) : Prop where
  adds : ∃ headings, Adds headings before after
  kept : Kept registry after
  closed : ∀ {name}, Closed before name → Closed after name
  met : ∀ instruction ∈ offered, ∀ name, after.registry.lookup name = some instruction →
    Closed after name
  fresh : ∀ name ∈ after.compiledAhead, name ∈ before.compiledAhead ∨
    ∃ visit ∈ inner, ∃ below, Visit.Within below visit ∧
      registry.lookup name = some below.instruction

/-- Whatever a visit comes to is told apart from what is registered, and no module is come to inside
itself. -/
structure Regular (registry : List (String × Instruction)) (visit : Visit) : Prop where
  exact : ∀ below, Visit.Within below visit → ∀ name found, registry.lookup name = some found →
    (found.same below.instruction = true ↔ found = below.instruction)
  noReturn : ∀ outer, Visit.Within outer visit → outer.instruction.isModule = true →
    ∀ below, Visit.Below below outer → below.instruction ≠ outer.instruction

/-- A visit does not come to what is being compiled ahead. -/
def Apart (registry : List (String × Instruction)) (state : CompileState) (visit : Visit) : Prop :=
  ∀ name ∈ state.aheadInProgress, registry.lookup name ≠ some visit.instruction

def Meeting (registry : List (String × Instruction)) (visit : Visit) : Prop :=
  visit.instruction.isPlain = true → Kept registry visit.before → Regular registry visit →
    (∀ below, Visit.Below below visit → Apart registry visit.before below) →
    Meets registry visit.instruction.innerOffers visit.before visit.inner visit.after ∧
      (visit.instruction ∈ visit.instruction.offers → ∀ name,
        visit.after.registry.lookup name = some visit.instruction →
          name ∉ visit.before.aheadInProgress → Closed visit.after name)

structure Guarded (registry : List (String × Instruction)) (state : CompileState) (visit : Visit) :
    Prop where
  faithful : visit.Faithful
  meeting : Meeting registry visit
  regular : Regular registry visit
  apart : ∀ below, Visit.Within below visit → Apart registry state below

private theorem Guarded.of_inProgress {visit : Visit} {earlier later : CompileState}
    (guarded : Guarded registry earlier visit)
    (same : later.aheadInProgress = earlier.aheadInProgress) : Guarded registry later visit :=
  { guarded with
    apart := fun below within name underway => guarded.apart below within name (same ▸ underway) }

theorem Regular.within {inner outer : Visit} (regular : Regular registry outer)
    (within : Visit.Within inner outer) : Regular registry inner :=
  ⟨fun below lower => regular.exact below (lower.trans within),
    fun middle lower => regular.noReturn middle (lower.trans within)⟩

variable {before between after : CompileState} {first second offered : List Instruction}
  {earlier later inner : List Visit}

/-- What one stretch of a run meets and what the next one meets adds up. -/
theorem Meets.trans (one : Meets registry first before earlier between)
    (other : Meets registry second between later after) :
    Meets registry (first ++ second) before (earlier ++ later) after where
  adds := by
    obtain ⟨headings, adds⟩ := one.adds
    obtain ⟨others, addsOthers⟩ := other.adds
    exact ⟨_, adds.trans addsOthers⟩
  kept := other.kept
  closed isClosed := other.closed (one.closed isClosed)
  met instruction member name found := by
    rcases List.mem_append.1 member with inFirst | inSecond
    · obtain ⟨_, adds⟩ := other.adds
      exact other.closed (one.met instruction inFirst name (adds.shrinks found))
    · exact other.met instruction inSecond name found
  fresh name member := by
    rcases other.fresh name member with old | ⟨visit, isLater, rest⟩
    · rcases one.fresh name old with old | ⟨visit, isEarlier, rest⟩
      · exact .inl old
      · exact .inr ⟨visit, List.mem_append_left _ isEarlier, rest⟩
    · exact .inr ⟨visit, List.mem_append_right _ isLater, rest⟩

theorem Meets.subset (meets : Meets registry offered before inner after)
    (fewer : first ⊆ offered) : Meets registry first before inner after :=
  { meets with met := fun instruction member => meets.met instruction (fewer member) }

theorem Meets.logged (meets : Meets registry offered before inner after) (line : String) :
    Meets registry offered before inner (after.logged line) := by
  obtain ⟨headings, adds⟩ := meets.adds
  have logged := adds.logged line
  exact ⟨⟨headings, logged⟩, ⟨logged.ready, meets.kept.settled, meets.kept.remains⟩, meets.closed,
    meets.met, meets.fresh⟩

private theorem closed_of_books (books : after.books = before.books)
    (grows : before.network.GrowsTo after.network) {name : String}
    (isClosed : Closed before name) : Closed after name := by
  obtain ⟨registry, compiled, inProgress⟩ := Books.mk.inj books
  rw [Closed, registry, compiled, inProgress]
  exact isClosed.imp_right fun ⟨⟨id, named⟩, rest⟩ => ⟨⟨id, grows.named named⟩, rest⟩

/-- Steps that do not look at the books meet nothing. -/
theorem Meets.of_books {headings : List Heading} (kept : Kept registry before)
    (adds : Adds headings before after) (books : after.books = before.books)
    (grows : before.network.GrowsTo after.network) : Meets registry [] before [] after := by
  obtain ⟨sameRegistry, compiled, _⟩ := Books.mk.inj books
  refine ⟨⟨_, adds⟩, ⟨adds.ready, ?_, fun found => kept.remains (adds.shrinks found)⟩,
    closed_of_books books grows, fun _ => (absurd · List.not_mem_nil),
    fun name member => .inl (compiled ▸ member)⟩
  intro name member instruction found offered isOffered other otherFound
  rw [compiled] at member
  rw [sameRegistry] at found otherFound
  exact closed_of_books books grows
    (kept.settled name member instruction found offered isOffered other otherFound)

/-- A quiet step meets nothing. -/
theorem Meets.of_quiet (kept : Kept registry before) (books : after.books = before.books)
    (quiet : before.Quiet after) : Meets registry [] before [] after :=
  .of_books kept (.of_same kept.ready books quiet.nodes) books quiet.grows.network

/-- A name that is taken off the books is closed, and so is what was settled with it. -/
theorem Meets.of_takes {name : String} {instruction : Instruction} (kept : Kept registry before)
    (takes : Takes name instruction before after)
    (nodes : after.network.nodes = before.network.nodes)
    (grows : before.network.GrowsTo after.network) :
    Meets registry [] before [] after ∧ after.registry.lookup name = none := by
  obtain ⟨headings, _, adds⟩ := Adds.of_takes kept.ready takes nodes
  obtain ⟨_, compiled, inProgress⟩ := Books.mk.inj takes.books
  have erased {other : String} (member : other ∈ after.compiledAhead) :
      other ∈ before.compiledAhead := by
    rw [compiled] at member
    exact List.mem_of_mem_erase member
  have closed {other : String} (isClosed : Closed before other) : Closed after other := by
    rcases isClosed with gone | ⟨⟨id, named⟩, notCompiled, notInProgress⟩
    · exact .inl (by rw [takes.lookup_eq, gone, ite_self])
    · exact .inr ⟨⟨id, grows.named named⟩, fun member => notCompiled (erased member),
        inProgress ▸ notInProgress⟩
  refine ⟨⟨⟨_, adds⟩, ⟨adds.ready, ?_, fun found => kept.remains (adds.shrinks found)⟩, closed,
    fun _ => (absurd · List.not_mem_nil), fun other member => .inl (erased member)⟩, ?_⟩
  · intro other member instruction found offered isOffered third thirdFound
    exact closed (kept.settled other (erased member) instruction (adds.shrinks found) offered
      isOffered third (adds.shrinks thirdFound))
  · rw [takes.lookup_eq, if_pos rfl]

/-! ## Names compiled ahead -/

theorem Kept.of_turns {name : String} {instruction : Instruction} (kept : Kept registry before)
    (turns : Turns name instruction before after)
    (nodes : after.network.nodes = before.network.nodes)
    (grows : before.network.GrowsTo after.network)
    (unknown : ∀ id, ¬ before.network.Named name id) :
    Kept registry after ∧ ∀ {other}, Closed before other → Closed after other := by
  obtain ⟨sameRegistry, compiled, inProgress⟩ := Books.mk.inj turns.books
  have closed {other : String} (isClosed : Closed before other) : Closed after other := by
    rcases isClosed with gone | ⟨⟨id, named⟩, notCompiled, notInProgress⟩
    · exact .inl (by rw [sameRegistry, gone])
    · refine .inr ⟨⟨id, grows.named named⟩, by rwa [compiled], ?_⟩
      rw [inProgress, List.mem_cons, not_or]
      exact ⟨fun same => unknown id (same ▸ named), notInProgress⟩
  refine ⟨⟨kept.ready.of_turns turns nodes, ?_, ?_⟩, closed⟩
  · intro other member found registered offered isOffered third thirdFound
    rw [compiled] at member
    rw [sameRegistry] at registered thirdFound
    exact closed (kept.settled other member found registered offered isOffered third thirdFound)
  · intro other found registered
    rw [sameRegistry] at registered
    exact kept.remains registered

private theorem isModule_of_below {visit below : Visit} (faithful : visit.Faithful) {name : String}
    (forward : visit.instruction.forwardName? = some name) (isBelow : Visit.Below below visit) :
    visit.instruction.isModule = true := by
  obtain ⟨middle, member, _⟩ := isBelow
  cases faithful with
  | intro unfolds _ =>
      obtain ⟨instruction, before, after, visits⟩ := visit
      dsimp only at unfolds forward member ⊢
      cases unfolds with
      | moduleDef _ _ _ _ => rfl
      | layer _ => cases member
      | moduleTaken _ _ => cases member
      | templateDef _ => cases member
      | _ => cases forward

private theorem apart_of_turns {name : String} {visit : Visit} (faithful : visit.Faithful)
    (regular : Regular registry visit) (kept : Kept registry before)
    (turns : Turns name visit.instruction before visit.before)
    (apart : ∀ below, Visit.Within below visit → Apart registry before below) :
    ∀ below, Visit.Below below visit → Apart registry visit.before below := by
  obtain ⟨_, _, inProgress⟩ := Books.mk.inj turns.books
  obtain ⟨_, forward⟩ := kept.ready.books.registered turns.registered
  intro below isBelow other isOther
  rw [inProgress] at isOther
  rcases List.mem_cons.1 isOther with rfl | earlier
  · intro same
    have isModule := isModule_of_below faithful forward isBelow
    exact regular.noReturn visit (.self visit) isModule below isBelow
      (Option.some.inj (same.symm.trans (kept.remains turns.registered)))
  · exact apart below isBelow.within other earlier

private theorem closed_of_finishAhead {name : String} {saved : ScopeId}
    (finished : Runs (finishAhead name saved) before () after) (notClosed : ¬ Closed before name)
    {other : String} (isClosed : Closed before other) : Closed after other := by
  obtain ⟨registry, compiled, inProgress⟩ := Books.mk.inj (runs_finishAhead finished).1
  have grows := (isQuiet_finishAhead _ _ _ _ _ finished).grows.network
  have apart : other ≠ name := by
    rintro rfl
    exact notClosed isClosed
  rcases isClosed with gone | ⟨⟨id, named⟩, notCompiled, notInProgress⟩
  · exact .inl (by rw [registry, gone])
  · refine .inr ⟨⟨id, grows.named named⟩, ?_, ?_⟩
    · rw [compiled, List.mem_cons, not_or]
      exact ⟨apart, notCompiled⟩
    · rw [inProgress]
      exact fun member => notInProgress (List.mem_of_mem_erase member)

/-- What is compiled ahead settles everything inside of it. -/
theorem Ahead.meets {name : String} (ahead : Ahead name before inner after)
    (guarded : ∀ visit ∈ inner, Guarded registry before visit)
    (unknown : ∀ id, ¬ before.network.Named name id) (kept : Kept registry before) :
    Meets registry [] before inner after := by
  have adds :=
    ahead.adds (fun visit member => (guarded visit member).faithful.accountedFor) kept.ready
  cases ahead.outcome with
  | skipped => exact .of_books kept adds rfl (.refl _)
  | @turned visit _ started turns finished =>
      have member := List.mem_singleton_self visit
      obtain ⟨faithful, meeting, regular, apart⟩ := guarded visit member
      have starts := isQuiet_startAhead _ _ _ _ started
      obtain ⟨plain, _⟩ := kept.ready.books.registered turns.registered
      have registered : registry.lookup name = some visit.instruction :=
        kept.remains turns.registered
      obtain ⟨startKept, startClosed⟩ :=
        kept.of_turns turns starts.nodes starts.grows.network unknown
      obtain ⟨startRegistry, startCompiled, startInProgress⟩ := Books.mk.inj turns.books
      obtain ⟨finishRegistry, finishCompiled, _⟩ := Books.mk.inj (runs_finishAhead finished).1
      obtain ⟨meets, _⟩ := meeting plain startKept regular
        (apart_of_turns faithful regular kept turns apart)
      obtain ⟨_, visitAdds⟩ := meets.adds
      have notClosed : ¬ Closed visit.after name := by
        have underway := visitAdds.underway name (startInProgress ▸ List.mem_cons_self)
        rintro (gone | ⟨_, _, notInProgress⟩)
        · rw [underway, startRegistry, turns.registered] at gone
          cases gone
        · rw [visitAdds.inProgress, startInProgress] at notInProgress
          exact notInProgress List.mem_cons_self
      have closed {other : String} (isClosed : Closed visit.after other) : Closed after other :=
        closed_of_finishAhead finished notClosed isClosed
      refine ⟨⟨_, adds⟩, ⟨adds.ready, ?_, fun found => kept.remains (adds.shrinks found)⟩,
        fun isClosed => closed (meets.closed (startClosed isClosed)),
        fun _ => (absurd · List.not_mem_nil), ?_⟩
      · intro other isOther found otherFound offered isOffered third thirdFound
        rw [finishCompiled] at isOther
        rw [finishRegistry] at otherFound thirdFound
        rcases List.mem_cons.1 isOther with rfl | earlier
        · have same := startKept.remains (visitAdds.shrinks otherFound)
          cases same.symm.trans registered
          exact closed (meets.met offered isOffered third thirdFound)
        · exact closed
            (meets.kept.settled other earlier found otherFound offered isOffered third thirdFound)
      · intro other isOther
        rw [finishCompiled] at isOther
        rcases List.mem_cons.1 isOther with rfl | earlier
        · exact .inr ⟨visit, member, visit, .self visit, registered⟩
        · rcases meets.fresh other earlier with old | ⟨middle, isMiddle, below, within, found⟩
          · exact .inl (startCompiled ▸ old)
          · exact .inr ⟨visit, member, below, .under isMiddle within, found⟩

/-- An endpoint that is compiled ahead closes no more names than its declarations. -/
theorem Ensured.meets {scope : ScopeId} {endpoint : String}
    (ensured : Ensured scope endpoint before inner after)
    (guarded : ∀ visit ∈ inner, Guarded registry before visit)
    (kept : Kept registry before) : Meets registry [] before inner after := by
  rcases ensured.cases with ⟨_, rfl, rfl⟩ | ⟨unresolved, ahead⟩
  · exact .of_books kept (.of_same kept.ready rfl rfl) rfl (.refl _)
  · exact ahead.meets guarded (CompileState.not_named_of_resolveExact unresolved) kept

/-! ## Whole instructions -/

/-- A body meets what its instructions offer. -/
theorem Sequence.meets {Matches : Instruction → Visit → Prop} {body : List Instruction}
    (sequence : Sequence Matches body before inner after)
    (guarded : ∀ visit ∈ inner, Guarded registry before visit)
    (plain : ∀ visit ∈ inner, visit.instruction.isPlain = true) (kept : Kept registry before) :
    Meets registry (inner.flatMap fun visit => visit.instruction.offers) before inner after := by
  induction sequence with
  | done state => exact .of_books kept (.of_same kept.ready rfl rfl) rfl (.refl _)
  | @next _ _ visit rest _ _ _ inductionHypothesis =>
      have member : visit ∈ visit :: rest := List.mem_cons_self
      have later {other : Visit} (isLater : other ∈ rest) : other ∈ visit :: rest :=
        List.mem_cons_of_mem _ isLater
      obtain ⟨_, meeting, regular, apart⟩ := guarded visit member
      obtain ⟨meets, closes⟩ := meeting (plain visit member) kept regular
        fun below isBelow => apart below isBelow.within
      obtain ⟨headings, adds⟩ := meets.adds
      -- The visit itself is met as well, since it is not being compiled ahead.
      have whole : Meets registry visit.instruction.offers visit.before [visit] visit.after := by
        refine ⟨meets.adds, meets.kept, meets.closed, ?_, ?_⟩
        · intro instruction offered name found
          rcases Instruction.eq_or_mem_innerOffers offered with rfl | isInner
          · refine closes offered name found fun underway => ?_
            exact apart visit (.self visit) name underway (meets.kept.remains found)
          · exact meets.met instruction isInner name found
        · intro name compiled
          refine (meets.fresh name compiled).imp_right ?_
          rintro ⟨middle, isMiddle, below, within, found⟩
          exact ⟨visit, List.mem_singleton_self _, below, .under isMiddle within, found⟩
      have following := inductionHypothesis
        (fun other isLater => (guarded other (later isLater)).of_inProgress adds.inProgress)
        (fun other isLater => plain other (later isLater)) meets.kept
      exact whole.trans following

/-- A loop meets what its rounds offer. -/
theorem Rounds.meets {counter : String} {body : List Instruction} {count : Nat} {value : Int}
    (rounds : Rounds counter body count value before inner after)
    (guarded : ∀ visit ∈ inner, Guarded registry before visit)
    (plain : Instruction.isPlainAll body = true) (kept : Kept registry before) :
    Meets registry [] before inner after := by
  induction rounds with
  | done value state => exact .of_books kept (.of_same kept.ready rfl rfl) rfl (.refl _)
  | @round count value _ _ _ first rest filled _ inductionHypothesis =>
      have isFirst {other : Visit} (member : other ∈ first) : other ∈ first ++ rest :=
        List.mem_append_left _ member
      have isLater {other : Visit} (member : other ∈ rest) : other ∈ first ++ rest :=
        List.mem_append_right _ member
      have firstPlain : ∀ visit ∈ first, visit.instruction.isPlain = true := by
        intro visit member
        obtain ⟨position, found⟩ := List.mem_iff_getElem?.1 member
        obtain ⟨template, isTemplate, applied⟩ := filled.matching found
        exact Instruction.isPlain_of_apply (isNumeric_roundSubstitution counter value) applied
          (Instruction.isPlainAll_iff.1 plain template (List.mem_of_getElem? isTemplate))
      have meets :=
        filled.meets (fun other member => guarded other (isFirst member)) firstPlain kept
      obtain ⟨headings, adds⟩ := meets.adds
      have following := inductionHypothesis
        (fun other member => (guarded other (isLater member)).of_inProgress adds.inProgress)
        meets.kept
      exact (meets.subset (List.nil_subset _)).trans following

/-- The visits of a body are those of its instructions. -/
theorem Sequence.instructions {body : List Instruction}
    (sequence : Sequence Is body before inner after) : inner.map Visit.instruction = body := by
  induction sequence with
  | done _ => rfl
  | next same _ inductionHypothesis => rw [List.map_cons, inductionHypothesis, show _ = _ from same]

private theorem Sequence.meets_is {body : List Instruction}
    (sequence : Sequence Is body before inner after)
    (guarded : ∀ visit ∈ inner, Guarded registry before visit)
    (plain : Instruction.isPlainAll body = true) (kept : Kept registry before) :
    Meets registry (Instruction.offersAll body) before inner after := by
  have instructions := sequence.instructions
  have each : ∀ visit ∈ inner, visit.instruction.isPlain = true := by
    intro visit member
    refine Instruction.isPlainAll_iff.1 plain _ ?_
    rw [← instructions]
    exact List.mem_map_of_mem member
  have meets := sequence.meets guarded each kept
  rwa [← List.flatMap_map, instructions, ← Instruction.offersAll_eq] at meets

private theorem meets_of_layer {spec : LayerSpec} (kept : Kept registry before)
    (plain : (Instruction.layer spec).isPlain = true)
    (exact : ∀ name found, registry.lookup name = some found →
      (found.same (.layer spec) = true ↔ found = .layer spec))
    (ran : Runs (layer spec) before () after) :
    Meets registry [] before [] after ∧
      ∀ name, after.registry.lookup name = some (.layer spec) →
        name ∉ before.aheadInProgress → Closed after name := by
  have adds := adds_of_layer kept.ready plain ran
  have grows := (declares_of_layer ran).leads.grows.network
  have ownName {name : String} (found : after.registry.lookup name = some (.layer spec)) :
      name = spec.name := by
    have forward := (adds.ready.books.registered found).2
    exact (Option.some.inj (Instruction.declaredName?_of_forwardName? forward)).symm
  simp only [Instruction.isPlain, Bool.and_eq_true, Bool.not_eq_true'] at plain
  rcases (runs_layer plain.1 plain.2).1 ran with ⟨taken, takes, rfl⟩ | ⟨asked, asks, adding⟩
  · rcases runs_takeAhead takes with ⟨_, taking⟩ | ⟨isFalse, _⟩
    · have quiet := isQuiet_takeAhead _ _ _ _ _ takes
      obtain ⟨meets, gone⟩ := Meets.of_takes kept taking quiet.nodes quiet.grows.network
      refine ⟨meets.logged _, fun name found => ?_⟩
      rw [ownName found] at found
      cases gone.symm.trans found
    · cases isFalse
  · rcases runs_takeAhead asks with ⟨isTrue, _⟩ | ⟨_, rfl, notTaken⟩
    · cases isTrue
    · have books := keeps_newLayer steady_books _ _ _ _ adding
      have meets := Meets.of_books kept adds books grows
      refine ⟨meets, fun name found notInProgress => .inr ?_⟩
      have sameName := ownName found
      subst sameName
      obtain ⟨sameRegistry, compiled, inProgress⟩ := Books.mk.inj books
      obtain ⟨kind, _, rfl⟩ := runs_newLayer.1 adding
      have registered := adds.shrinks found
      refine ⟨⟨asked.network.size, _, Network.layer?_addLayer_size _ _ _, rfl⟩, ?_, ?_⟩
      · rw [compiled]
        exact notTaken _ registered ((exact _ _ (kept.remains registered)).2 rfl)
      · rwa [inProgress]

private theorem meets_of_moduleDef {name : String} {inputs outputs : List String}
    {body : List Instruction} {logged finish : CompileState} {gathered : List LayerId}
    (guarded : ∀ visit ∈ inner, Guarded registry before visit) (kept : Kept registry before)
    (plain : Instruction.isPlainAll body = true)
    (exact : ∀ key found, registry.lookup key = some found →
      (found.same (.moduleDef name inputs outputs body) = true ↔
        found = .moduleDef name inputs outputs body))
    (noReturn : ∀ visit ∈ inner, ∀ below, Visit.Within below visit →
      below.instruction ≠ .moduleDef name inputs outputs body)
    (notTaken : ∀ found, before.registry.lookup name = some found →
      found.same (.moduleDef name inputs outputs body) = true → name ∉ before.compiledAhead)
    (logs : before.Quiet logged) (books : logged.books = before.books)
    (children : Children logged.network.size [] body logged inner gathered finish)
    (finishes : Runs (finishModule name gathered) finish () after) :
    Meets registry (Instruction.offersAll body) before inner after ∧
      ∀ key, after.registry.lookup key = some (.moduleDef name inputs outputs body) →
        key ∉ before.aheadInProgress → Closed after key := by
  have started := Meets.of_quiet kept books logs
  obtain ⟨sameRegistry, compiled, inProgress⟩ := Books.mk.inj books
  have meets := children.sequence.meets_is
    (fun visit member => (guarded visit member).of_inProgress inProgress) plain started.kept
  have finishBooks := keeps_finishModule steady_books _ _ _ _ _ finishes
  have quiet := runs_finishModule finishes
  have added : finish.network.GrowsTo after.network :=
    (Network.growsTo_addLayer finish.network name (.composite gathered)).trans quiet.grows.network
  have finished := Meets.of_books meets.kept (adds_of_finishModule meets.kept.ready finishes)
    finishBooks added
  have whole := (started.trans meets).trans finished
  simp only [List.nil_append, List.append_nil] at whole
  refine ⟨whole, fun key found notInProgress => .inr ?_⟩
  obtain ⟨_, adds⟩ := whole.adds
  have ownName : key = name := by
    have forward := (whole.kept.ready.books.registered found).2
    exact (Option.some.inj (Instruction.declaredName?_of_forwardName? forward)).symm
  subst ownName
  have registered := adds.shrinks found
  refine ⟨⟨finish.network.size, ?_⟩, fun member => ?_, adds.inProgress ▸ notInProgress⟩
  · exact quiet.grows.network.named ⟨_, Network.layer?_addLayer_size _ _ _, rfl⟩
  · -- The name was not compiled ahead before, and nothing inside of the module is the module.
    rcases whole.fresh key member with old | ⟨visit, isInner, below, within, again⟩
    · exact notTaken _ registered ((exact _ _ (kept.remains registered)).2 rfl) old
    · exact noReturn visit isInner below within
        (Option.some.inj (again.symm.trans (kept.remains registered)))

private theorem meets_of_connect {source target : String} {scope : ScopeId}
    {started between ensured : CompileState} {first second : List Visit}
    (guarded : ∀ visit ∈ first ++ second, Guarded registry before visit)
    (kept : Kept registry before)
    (starts : Runs (startConnect source target) before scope started)
    (sourceEnsured : Ensured scope source started first between)
    (targetEnsured : Ensured scope target between second ensured)
    (finishes : Runs (finishConnect scope source target) ensured () after) :
    Meets registry [] before (first ++ second) after := by
  have startBooks := keeps_startConnect steady_books _ _ _ _ _ starts
  have started := Meets.of_books kept
    (.of_same kept.ready startBooks (nodes_of_startConnect kept.ready.noInput starts))
    startBooks (runs_startConnect starts).1.grows.network
  obtain ⟨_, _, startInProgress⟩ := Books.mk.inj startBooks
  have sourceMeets := sourceEnsured.meets
    (fun visit member =>
      (guarded visit (List.mem_append_left _ member)).of_inProgress startInProgress)
    started.kept
  obtain ⟨_, sourceAdds⟩ := sourceMeets.adds
  have targetMeets := targetEnsured.meets
    (fun visit member =>
      (guarded visit (List.mem_append_right _ member)).of_inProgress
        (sourceAdds.inProgress.trans startInProgress)) sourceMeets.kept
  have finishBooks := keeps_finishConnect steady_books _ _ _ _ _ _ finishes
  have finished := Meets.of_books targetMeets.kept
    (.of_same targetMeets.kept.ready finishBooks (nodes_of_finishConnect finishes)) finishBooks
    (settles_of_finishConnect finishes).grows.network
  have whole := ((started.trans sourceMeets).trans targetMeets).trans finished
  simp only [List.nil_append, List.append_nil] at whole
  exact whole

private theorem meets_of_moduleTaken {name : String} {inputs outputs : List String}
    {body : List Instruction} {taken : CompileState} (kept : Kept registry before)
    (exact : ∀ key found, registry.lookup key = some found →
      (found.same (.moduleDef name inputs outputs body) = true ↔
        found = .moduleDef name inputs outputs body))
    (takes : Runs (takeAhead name (.moduleDef name inputs outputs body)) before true taken)
    (logs : Runs (log s!"MODULE_DEF '{name}' already compiled lazily, skipping") taken () after) :
    Meets registry (Instruction.offersAll body) before [] after ∧
      ∀ key, after.registry.lookup key ≠ some (.moduleDef name inputs outputs body) := by
  rcases runs_takeAhead takes with ⟨_, taking⟩ | ⟨isFalse, _⟩
  · have quiet := isQuiet_takeAhead _ _ _ _ _ takes
    obtain ⟨meets, gone⟩ := Meets.of_takes kept taking quiet.nodes quiet.grows.network
    obtain ⟨found, registered, same⟩ := taking.registered
    cases (exact name found (kept.remains registered)).1 same
    obtain ⟨_, takenAdds⟩ := meets.adds
    rw [runs_log.1 logs]
    have whole := meets.logged s!"MODULE_DEF '{name}' already compiled lazily, skipping"
    refine ⟨{ whole with met := ?_ }, fun key keyFound => ?_⟩
    · intro offered isOffered other otherFound
      exact whole.closed (kept.settled name taking.compiled _ registered offered isOffered other
        (takenAdds.shrinks otherFound))
    · have ownName : key = name := by
        have forward := (whole.kept.ready.books.registered keyFound).2
        have own := (kept.ready.books.registered registered).2
        exact Option.some.inj (forward.symm.trans own)
      rw [ownName] at keyFound
      cases gone.symm.trans keyFound
  · cases isFalse

/-- Every instruction meets what it offers. -/
theorem Unfolds.meets {instruction : Instruction}
    (unfolds : Unfolds instruction before inner after)
    (guarded : ∀ visit ∈ inner, Guarded registry before visit) (kept : Kept registry before)
    (plain : instruction.isPlain = true)
    (exact : ∀ name found, registry.lookup name = some found →
      (found.same instruction = true ↔ found = instruction))
    (noReturn : instruction.isModule = true → ∀ visit ∈ inner, ∀ below,
      Visit.Within below visit → below.instruction ≠ instruction) :
    Meets registry instruction.innerOffers before inner after ∧
      (instruction ∈ instruction.offers → ∀ name,
        after.registry.lookup name = some instruction →
          name ∉ before.aheadInProgress → Closed after name) := by
  obtain ⟨_, _, adds⟩ :=
    unfolds.adds (fun visit member => (guarded visit member).faithful.accountedFor) plain kept.ready
  have unnamed (noName : instruction.forwardName? = none) :
      instruction ∈ instruction.offers → ∀ name, after.registry.lookup name = some instruction →
        name ∉ before.aheadInProgress → Closed after name := by
    intro _ name found
    cases noName.symm.trans (adds.ready.books.registered found).2
  cases unfolds with
  | program sequence => exact ⟨sequence.meets_is guarded plain kept, unnamed rfl⟩
  | block sequence => exact ⟨sequence.meets_is guarded plain kept, unnamed rfl⟩
  | layer ran =>
      obtain ⟨meets, closes⟩ := meets_of_layer kept plain exact ran
      exact ⟨meets, fun _ => closes⟩
  | connect starts sourceEnsured targetEnsured finishes =>
      exact ⟨meets_of_connect guarded kept starts sourceEnsured targetEnsured finishes, unnamed rfl⟩
  | moduleTaken takes logs =>
      obtain ⟨meets, gone⟩ := meets_of_moduleTaken kept exact takes logs
      exact ⟨meets, fun _ name found => absurd found (gone name)⟩
  | moduleDef takes logs children finishes =>
      rcases runs_takeAhead takes with ⟨isTrue, _⟩ | ⟨_, rfl, notTaken⟩
      · cases isTrue
      obtain ⟨meets, closes⟩ := meets_of_moduleDef guarded kept plain exact (noReturn rfl) notTaken
        (isQuiet_log _ _ _ _ logs) (keeps_log steady_books _ _ _ _ logs) children finishes
      exact ⟨meets, fun _ => closes⟩
  | loop opens rounds =>
      have books := keeps_loopRange steady_books _ _ _ _ _ _ _ opens
      have opened := Meets.of_quiet kept books (isQuiet_loopRange _ _ _ _ _ _ _ opens)
      have meets := rounds.meets
        (fun visit member =>
          (guarded visit member).of_inProgress (congrArg Books.aheadInProgress books))
        plain opened.kept
      exact ⟨opened.trans meets, unnamed rfl⟩
  | branch _ _ _ _ => cases plain
  | templateDef ran =>
      exact ⟨.of_quiet kept (keeps_templateDef fixed_books _ _ _ _ _ _ ran)
        (isQuiet_templateDef _ _ _ _ _ _ ran), nofun⟩
  | templateCall _ _ => cases plain
  | call _ _ => cases plain
  | expand opens sequence =>
      have books := keeps_startExpand steady_books _ _ _ _ _ _ opens
      have opened := Meets.of_quiet kept books (isQuiet_startExpand _ _ _ _ _ _ opens)
      have meets := sequence.meets_is
        (fun visit member =>
          (guarded visit member).of_inProgress (congrArg Books.aheadInProgress books))
        plain opened.kept
      exact ⟨opened.trans meets, unnamed rfl⟩

end Meeting

end Compile

open Compile in
/-- Every visit meets what its instruction offers. -/
theorem Visit.Faithful.meeting {visit : Visit} (faithful : visit.Faithful)
    (registry : List (String × Instruction)) : Meeting registry visit := by
  induction faithful with
  | @intro visit unfolds inner inductionHypothesis =>
      intro plain kept regular apart
      refine unfolds.meets (fun below member => ?_) kept plain (regular.exact visit (.self visit))
        fun isModule middle member below within =>
          regular.noReturn visit (.self visit) isModule below ⟨middle, member, within⟩
      exact {
        faithful := inner below member
        meeting := inductionHypothesis below member
        regular := regular.within (.under member (.self below))
        apart := fun lower within => apart lower ⟨below, member, within⟩ }

/-! ## Whole runs -/

namespace Compile

private theorem books_bindEach :
    ∀ (connections : List PendingConnect) (tally : Tally) (state : CompileState),
      (bindEach connections (tally, state)).2.books = state.books
  | [], _, _ => rfl
  | connection :: rest, tally, state => by
      rw [bindEach, books_bindEach rest]
      unfold bindOne
      split
      · split
        · rfl
        · dsimp only
          split <;> rfl
      · rfl

/-- The final wiring leaves the books as they are. -/
theorem books_bindAll (state : CompileState) : (bindAll state).books = state.books :=
  books_bindEach _ _ _

variable {name : String} {seed : UInt64} {program : Instruction} {compiled : Compiled}

/-- Before the first instruction of a plain program everything is in order. -/
theorem RootOf.kept {root : Visit} (rootOf : RootOf name seed program compiled root)
    (plain : program.isPlain = true) : Kept (program.prescan []) root.before := by
  have books := books_of_prepare rootOf.prepared
  have nodes := (isQuiet_prepare _ _ _ _ _ rootOf.prepared).nodes
  obtain ⟨registry, compiledAhead, inProgress⟩ := Books.mk.inj books
  refine ⟨⟨⟨?_, ?_, ?_⟩, fun node member => ?_⟩, ?_, ?_⟩
  · rw [books]
    exact List.nodup_nil
  · rw [books]
    exact fun _ => (absurd · List.not_mem_nil)
  · intro key instruction found
    rw [books] at found
    obtain ⟨instructionPlain, forward, _⟩ := Instruction.registered_of_prescan plain found
    exact ⟨instructionPlain, forward⟩
  · rw [nodes] at member
    cases member
  · intro key member
    rw [show root.before.compiledAhead = [] from compiledAhead] at member
    cases member
  · intro key instruction found
    rwa [registry] at found

end Compile

end NetBlueprint
