import NetBlueprint.Proofs.Compiler.Redrawing
import NetBlueprint.Proofs.Compiler.RespelledSteps

/-!
Contract: whole runs that differ in the marks of suffixes only.

Where no request for a suffix needs many redraws, two runs draw suffixes of the same labels with
marks of the same length. Each new suffix is fresh in both runs, so it joins the pairs of suffixes
that stand for each other, and the states stay in step however the instructions are nested.

Owns: requests for suffixes, constructs, and instructions compiled within a depth.

Does not own: what the runs start from and what they answer.
-/

namespace NetBlueprint.Compile

variable {pairs : List (String × String)} {Result OtherResult Next OtherNext : Type}

/-! ## Staying in step while suffixes are drawn -/

/-- Two actions that may draw suffixes and keep their runs in step, unless one of them needs many
redraws. Results are related by way of all suffixes drawn so far. -/
structure DrawInStep (pairs : List (String × String))
    (Results : List (String × String) → Result → OtherResult → Prop) (action : CompileM Result)
    (other : CompileM OtherResult) : Prop where
  ends : ∀ {before otherBefore}, before.InStep pairs otherBefore →
    FewRedraws (action.run before) → FewRedraws (other.run otherBefore) →
      ∃ more, pairs ⊆ more ∧
        EndInStep more (Results more) (action.run before) (other.run otherBefore)

abbrev KeepsAll (action : CompileM Result) : Prop :=
  ∀ suffix, KeepsUsed suffix action

section Combinators

variable {Results : List (String × String) → Result → OtherResult → Prop}
  {LastResults : List (String × String) → Next → OtherNext → Prop}

/-- What draws no suffix adds none. -/
theorem StayInStep.draws {action : CompileM Result} {other : CompileM OtherResult}
    (stays : StayInStep pairs (Results pairs) action other) :
    DrawInStep pairs Results action other :=
  ⟨fun states _ _ => ⟨pairs, List.Subset.refl _, stays.ends states⟩⟩

private theorem drawInStep_bind {action : CompileM Result} {other : CompileM OtherResult}
    {next : Result → CompileM Next} {otherNext : OtherResult → CompileM OtherNext}
    (first : DrawInStep pairs Results action other) (keeps : ∀ value, KeepsAll (next value))
    (otherKeeps : ∀ value, KeepsAll (otherNext value))
    (second : ∀ {more}, pairs ⊆ more → ∀ {value otherValue}, Results more value otherValue →
      DrawInStep more LastResults (next value) (otherNext otherValue)) :
    DrawInStep pairs LastResults (action >>= next) (other >>= otherNext) := by
  refine ⟨fun {before otherBefore} states few otherFew => ?_⟩
  obtain ⟨between, grows, ends⟩ :=
    first.ends states (few.of_bind keeps) (otherFew.of_bind otherKeeps)
  rw [Outcome.run_bind] at few otherFew
  rw [Outcome.run_bind, Outcome.run_bind]
  generalize action.run before = outcome at ends few ⊢
  generalize other.run otherBefore = otherOutcome at ends otherFew ⊢
  cases ends with
  | failed faults after otherAfter => exact ⟨between, grows, .failed faults after otherAfter⟩
  | succeeded results statesBetween =>
      obtain ⟨more, growsMore, last⟩ := (second grows results).ends statesBetween few otherFew
      exact ⟨more, List.Subset.trans grows growsMore, last⟩

/-- What comes first draws no suffix. -/
theorem StayInStep.bind_draws {First OtherFirst : Type} {Firsts : First → OtherFirst → Prop}
    {action : CompileM First} {other : CompileM OtherFirst} {next : First → CompileM Next}
    {otherNext : OtherFirst → CompileM OtherNext} (first : StayInStep pairs Firsts action other)
    (second : ∀ {value otherValue}, Firsts value otherValue →
      DrawInStep pairs LastResults (next value) (otherNext otherValue)) :
    DrawInStep pairs LastResults (action >>= next) (other >>= otherNext) := by
  refine ⟨fun {before otherBefore} states few otherFew => ?_⟩
  have ends := first.ends states
  rw [Outcome.run_bind] at few otherFew
  rw [Outcome.run_bind, Outcome.run_bind]
  generalize action.run before = outcome at ends few ⊢
  generalize other.run otherBefore = otherOutcome at ends otherFew ⊢
  cases ends with
  | failed faults after otherAfter =>
      exact ⟨pairs, List.Subset.refl _, .failed faults after otherAfter⟩
  | succeeded results between => exact (second results).ends between few otherFew

end Combinators

/-! ## Requests for suffixes -/

structure DrawnTogether (pairs : List (String × String)) (suffix otherSuffix : String) : Prop where
  listed : (suffix, otherSuffix) ∈ pairs
  twins : Suffix.Twins suffix otherSuffix

private theorem exists_spelling {label : String} {attempt : Nat} {word : UInt32}
    (short : Suffix.IsShort (Suffix.suffixText label attempt word)) :
    ∃ mark, Suffix.IsMark mark ∧ mark.length = 4 ∧
      (Suffix.suffixText label attempt word).toList = Suffix.spelling label.toList mark := by
  obtain ⟨mark, isMark, spelled⟩ := Suffix.toList_suffixText label attempt word
  rw [Suffix.IsShort, Suffix.markOf_of_spelled isMark spelled] at short
  exact ⟨mark, isMark, short, spelled⟩

private theorem pairing_cons {suffix otherSuffix : String} (pairing : Suffix.Pairing pairs)
    (fresh : suffix ∉ pairs.map Prod.fst) (otherFresh : otherSuffix ∉ pairs.map Prod.snd) :
    Suffix.Pairing ((suffix, otherSuffix) :: pairs) := by
  have apart : ∀ pair ∈ pairs, suffix ≠ pair.1 ∧ otherSuffix ≠ pair.2 := fun pair member =>
    ⟨fun same => fresh (same ▸ List.mem_map_of_mem member),
      fun same => otherFresh (same ▸ List.mem_map_of_mem member)⟩
  refine List.forall_mem_cons.2 ⟨List.forall_mem_cons.2 ⟨iff_of_true rfl rfl, ?_⟩, ?_⟩
  · exact fun pair member => iff_of_false (apart pair member).1 (apart pair member).2
  · intro pair member
    refine List.forall_mem_cons.2 ⟨?_, pairing pair member⟩
    exact iff_of_false (apart pair member).1.symm (apart pair member).2.symm

private theorem drawInStep_freshSuffix {label : String} (isLabel : Suffix.IsLabel label.toList) :
    DrawInStep pairs DrawnTogether (freshSuffix label) (freshSuffix label) := by
  refine ⟨fun {before otherBefore} states few otherFew => ?_⟩
  -- A run with few redraws serves the request on one of the first attempts.
  have serves {before : CompileState} (few : FewRedraws ((freshSuffix label).run before)) :
      ∃ suffix mark after, Runs (freshSuffix label) before suffix after ∧ Suffix.IsMark mark ∧
        mark.length = 4 ∧ suffix.toList = Suffix.spelling label.toList mark := by
    rcases outcome : (freshSuffix label).run before with ⟨fault | suffix, after⟩
    · rw [outcome] at few
      exact absurd (congrArg Except.error (fails_freshSuffix outcome).1) (few.served label)
    · obtain ⟨attempt, count, rfl, _, same⟩ := runs_drawSuffix outcome
      rw [outcome, same] at few
      obtain ⟨mark, isMark, length, spelled⟩ :=
        exists_spelling (few.short _ List.mem_cons_self)
      exact ⟨_, mark, after, outcome, isMark, length, spelled⟩
  obtain ⟨suffix, mark, after, ran, isMark, length, spelled⟩ := serves few
  obtain ⟨other, otherMark, otherAfter, otherRan, isOther, otherLength, otherSpelled⟩ :=
    serves otherFew
  obtain ⟨_, count, _, fresh, rfl⟩ := runs_drawSuffix ran
  obtain ⟨_, otherCount, _, otherFresh, rfl⟩ := runs_drawSuffix otherRan
  have grows : pairs ⊆ (suffix, other) :: pairs := List.subset_cons_self _ _
  rw [states.used] at fresh
  rw [states.otherUsed] at otherFresh
  refine ⟨(suffix, other) :: pairs, grows, ?_⟩
  rw [show (freshSuffix label).run before = _ from ran,
    show (freshSuffix label).run otherBefore = _ from otherRan]
  exact .succeeded
    ⟨List.mem_cons_self, label.toList, mark, otherMark, isLabel, isMark, isOther, length,
      otherLength, spelled, otherSpelled⟩
    { corresponds := { states.corresponds.mono grows with }
      pairing := pairing_cons states.pairing fresh otherFresh
      used := congrArg (suffix :: ·) states.used
      otherUsed := congrArg (other :: ·) states.otherUsed }

private theorem DrawnTogether.bind {suffix otherSuffix : String}
    (drawn : DrawnTogether pairs suffix otherSuffix) {one other : Substitution}
    (corresponds : one.Corresponds pairs other) :
    (one.bind suffixKey suffix).Corresponds pairs (other.bind suffixKey otherSuffix) := by
  obtain ⟨_, opens⟩ := drawn.twins.opens
  obtain ⟨_, otherOpens⟩ := drawn.twins.symm.opens
  refine corresponds.bind (.suffix ?_ ?_)
  · rw [opens]
    exact List.mem_cons_self
  · rw [otherOpens]
    exact List.mem_cons_self

structure OpenTemplate.Corresponds (pairs : List (String × String)) (one other : OpenTemplate) :
    Prop where
  body : Instruction.AllCorrespond pairs one.body other.body
  substitution : one.substitution.Corresponds pairs other.substitution

private theorem callSubstitution_corresponds {parameters args otherArgs : List String}
    {suffix otherSuffix : String} (plain : ∀ parameter ∈ parameters, '_' ∉ parameter.toList)
    (allArgs : List.Forall₂ (RespelledName pairs) args otherArgs)
    (drawn : DrawnTogether pairs suffix otherSuffix) :
    (callSubstitution parameters args suffix).Corresponds pairs
      (callSubstitution parameters otherArgs otherSuffix) := by
  refine drawn.bind ?_
  suffices bound : ∀ {one other : Substitution}, one.Corresponds pairs other →
      ((parameters.zip args).foldl (fun substitution pair => substitution.bind pair.1 pair.2)
        one).Corresponds pairs ((parameters.zip otherArgs).foldl
          (fun substitution pair => substitution.bind pair.1 pair.2) other) from
    bound Substitution.corresponds_empty
  induction allArgs generalizing parameters with
  | nil =>
      intro one other corresponds
      rwa [List.zip_nil_right, List.foldl_nil]
  | cons first _ inductionHypothesis =>
      intro one other corresponds
      cases parameters with
      | nil => exact corresponds
      | cons parameter parameters =>
          obtain ⟨isPlain, arePlain⟩ := List.forall_mem_cons.1 plain
          exact inductionHypothesis arePlain (corresponds.bind (.text isPlain first))

private theorem drawInStep_openTemplate {name otherName : String} {args otherArgs : List String}
    (names : RespelledText pairs name otherName)
    (allArgs : List.Forall₂ (RespelledName pairs) args otherArgs) :
    DrawInStep pairs OpenTemplate.Corresponds (openTemplate name args)
      (openTemplate otherName otherArgs) := by
  refine (stayInStep_findTemplate names).bind_draws fun {found otherFound} related => ?_
  cases related with
  | none =>
      refine (stayInStep_throw ?_).draws
      rfl
  | some definitions =>
      obtain ⟨definitions, isLabel, rfl⟩ := definitions
      cases definitions with
      | @templateDef _ parameters body otherBody _ plain bodies =>
          dsimp only
          rw [allArgs.length_eq]
          split
          · refine (stayInStep_throw_bind ?_ _ _).draws
            rfl
          have keeps (renames : Except ExprError (List (String × String)))
              (line : List (String × String) → String)
              (opened : List (String × String) → OpenTemplate) :
              KeepsAll (expression renames >>= fun renames =>
                log (line renames) >>= fun _ => pure (opened renames)) :=
            fun _ => maintains_bind (keepsUsed_expression _) fun _ =>
              maintains_bind (keepsUsed_log _) fun _ => maintains_pure _
          refine drawInStep_bind (drawInStep_freshSuffix isLabel) (fun _ => keeps _ _ _)
            (fun _ => keeps _ _ _)
            fun {more} grows {suffix otherSuffix} drawn => ?_
          have args := allArgs.imp fun _ _ name => name.mono grows
          have substitutions := callSubstitution_corresponds plain args drawn
          refine (stayInStep_of_pairing fun pairing => ?_).draws
          refine stayInStep_bind (stayInStep_expression (hygienicRenames_corresponds pairing
            (bodies.mono grows) substitutions plain drawn.listed drawn.twins false)) ?_
          intro renames otherRenames related
          exact stayInStep_bind_eq (stayInStep_log _ _) fun _ =>
            stayInStep_pure ⟨bodies.mono grows, substitutions.withRenames related⟩
      | _ =>
          refine (stayInStep_throw ?_).draws
          rfl

private theorem drawInStep_enterBranch {label : String} (isLabel : Suffix.IsLabel label.toList)
    {body otherBody : List Instruction}
    (bodies : Instruction.AllCorrespond pairs body otherBody) :
    DrawInStep pairs OpenBranch.Corresponds (enterBranch label body)
      (enterBranch label otherBody) := by
  have keeps (body : List Instruction) (suffix : String) :
      KeepsAll (do
        let substitution := Substitution.empty.bind suffixKey suffix
        let renames ← expression (hygienicRenames body substitution [] suffix true)
        let outer := (← get).current
        modify CompileState.entered
        return (⟨substitution.withRenames renames, (← get).current, outer⟩ : OpenBranch)) :=
    fun _ => maintains_bind (keepsUsed_expression _) fun _ => maintains_get_bind fun _ =>
      maintains_bind (maintains_modify fun _ used => used) fun _ => maintains_get_bind fun _ =>
        maintains_pure _
  refine drawInStep_bind (drawInStep_freshSuffix isLabel) (keeps body) (keeps otherBody)
    fun {more} grows {suffix otherSuffix} drawn => ?_
  have substitutions := drawn.bind Substitution.corresponds_empty
  refine (stayInStep_of_pairing fun pairing => ?_).draws
  refine stayInStep_bind (stayInStep_expression (hygienicRenames_corresponds pairing
    (bodies.mono grows) substitutions (List.forall_mem_nil _) drawn.listed drawn.twins true)) ?_
  intro renames otherRenames related
  refine stayInStep_get_bind fun {outer otherOuter} outers => ?_
  refine stayInStep_bind_eq (stayInStep_modify (fun _ => rfl) (fun _ => rfl) fun states =>
    states.corresponds.entered) fun _ => ?_
  exact stayInStep_get_bind fun states => stayInStep_pure
    ⟨substitutions.withRenames related, states.corresponds.current, outers.corresponds.current⟩

/-! ## Constructs -/

/-- Results that are the same in both runs, whatever was drawn. -/
abbrev Same (_ : List (String × String)) : Result → Result → Prop :=
  (· = ·)

section Constructs

variable {compile : Instruction → CompileM Unit}
  (keeps : ∀ instruction, KeepsAll (compile instruction))

include keeps

private theorem keepsAll_filled (substitution : Substitution) (body : List Instruction) :
    KeepsAll (filled compile substitution body) :=
  fun suffix => maintains_filled steps_keepUsed fun _ _ inner _ => keeps inner suffix

private theorem keepsAll_ensure (scope : ScopeId) (endpoint : String) :
    KeepsAll (ensure compile scope endpoint) :=
  fun suffix => maintains_ensure (keepsUsed_ahead fun inner => keeps inner suffix) scope endpoint

private theorem keepsAll_branchRoot (label : String) (body : List Instruction) :
    KeepsAll (branchRoot compile label body) :=
  fun suffix => maintains_branchRoot steps_keepUsed fun _ _ _ inner _ => keeps inner suffix

variable (each : ∀ {pairs : List (String × String)} {one other : Instruction},
    one.Corresponds pairs other → DrawInStep pairs Same (compile one) (compile other))

include each

private theorem drawInStep_all : ∀ {pairs : List (String × String)}
    {body otherBody : List Instruction},
    Instruction.AllCorrespond pairs body otherBody →
      DrawInStep pairs Same (all compile body) (all compile otherBody)
  | _, _, _, .nil => (stayInStep_pure rfl).draws
  | _, _, _, .cons head rest =>
      drawInStep_bind (each head) (fun _ _ => maintains_all fun _ _ => keeps _ _)
        (fun _ _ => maintains_all fun _ _ => keeps _ _) fun grows _ _ _ =>
          drawInStep_all (rest.mono grows)

private theorem drawInStep_filled : ∀ {pairs : List (String × String)} {one other : Substitution}
    {body otherBody : List Instruction}, one.Corresponds pairs other →
      Instruction.AllCorrespond pairs body otherBody →
        DrawInStep pairs Same (filled compile one body) (filled compile other otherBody)
  | _, _, _, _, _, _, .nil => (stayInStep_pure rfl).draws
  | _, _, _, _, _, corresponds, .cons head rest =>
      (stayInStep_of_pairing fun pairing =>
        stayInStep_expression (head.apply pairing corresponds)).bind_draws fun inner =>
          drawInStep_bind (each inner) (fun _ => keepsAll_filled keeps _ _)
            (fun _ => keepsAll_filled keeps _ _) fun grows _ _ _ =>
              drawInStep_filled (corresponds.mono grows) (rest.mono grows)

omit keeps in
private theorem drawInStep_ahead {name otherName : String}
    (names : RespelledText pairs name otherName) :
    DrawInStep pairs Same (ahead compile name) (ahead compile otherName) := by
  refine (stayInStep_startAhead names).bind_draws fun {turned otherTurned} related => ?_
  cases related with
  | none => exact (stayInStep_pure rfl).draws
  | @some turned otherTurned related =>
      obtain ⟨instruction, saved⟩ := turned
      obtain ⟨other, otherSaved⟩ := otherTurned
      obtain ⟨instructions, rfl : saved = otherSaved⟩ := related
      exact drawInStep_bind (each instructions) (fun _ _ => maintains_modify fun _ used => used)
        (fun _ _ => maintains_modify fun _ used => used) fun grows _ _ _ =>
          (stayInStep_finishAhead (names.mono grows) saved).draws

omit keeps in
private theorem drawInStep_ensure (scope : ScopeId) {name otherName : String}
    (names : RespelledEndpoint pairs name otherName) :
    DrawInStep pairs Same (ensure compile scope name) (ensure compile scope otherName) := by
  refine (stayInStep_isUnknown scope names).bind_draws fun {unknown _} same => ?_
  subst same
  cases unknown with
  | false => exact (stayInStep_pure rfl).draws
  | true => exact drawInStep_ahead each names.respelled

private theorem drawInStep_connect {source target otherSource otherTarget : String}
    (sources : RespelledEndpoint pairs source otherSource)
    (targets : RespelledEndpoint pairs target otherTarget) :
    DrawInStep pairs Same (connect compile source target)
      (connect compile otherSource otherTarget) := by
  refine (stayInStep_startConnect sources targets).bind_draws fun {scope _} same => ?_
  subst same
  have finishes (source target : String) : KeepsAll (finishConnect scope source target) :=
    fun _ => steps_keepUsed.finishConnect scope source target
  have follows (source target : String) : KeepsAll (do
      ensure compile scope target
      finishConnect scope source target) :=
    fun suffix => maintains_bind (keepsAll_ensure keeps scope target suffix) fun _ =>
      finishes source target suffix
  refine drawInStep_bind (drawInStep_ensure each scope sources) (fun _ => follows _ _)
    (fun _ => follows _ _) fun grows _ _ _ => ?_
  refine drawInStep_bind (drawInStep_ensure each scope (targets.mono grows))
    (fun _ => finishes _ _) (fun _ => finishes _ _) fun growsMore _ _ _ => ?_
  have more := List.Subset.trans grows growsMore
  exact (stayInStep_finishConnect scope (sources.mono more) (targets.mono more)).draws

private theorem drawInStep_children (start : Nat) :
    ∀ {pairs : List (String × String)} (gathered : List LayerId)
      {body otherBody : List Instruction}, Instruction.AllCorrespond pairs body otherBody →
        DrawInStep pairs Same (children compile start gathered body)
          (children compile start gathered otherBody)
  | _, _, _, _, .nil => (stayInStep_pure rfl).draws
  | _, gathered, _, _, .cons head tail => by
      refine stayInStep_layerCount.bind_draws fun {count _} same => ?_
      subst same
      have follows (child : Instruction) (rest : List Instruction) : KeepsAll (do
          let gathered ← gather start count gathered child
          children compile start gathered rest) :=
        fun suffix => maintains_bind (maintains_get_bind fun _ => maintains_pure _) fun _ =>
          maintains_children fun inner _ => keeps inner suffix
      refine drawInStep_bind (each head) (fun _ => follows _ _) (fun _ => follows _ _)
        fun grows _ _ _ => ?_
      refine (stayInStep_gather start count gathered (head.mono grows)).bind_draws
        fun {gathered _} same => ?_
      subst same
      exact drawInStep_children start gathered (tail.mono grows)

private theorem drawInStep_moduleDef {name otherName : String}
    {inputs outputs otherInputs otherOutputs : List String} {body otherBody : List Instruction}
    (names : RespelledName pairs name otherName)
    (allInputs : List.Forall₂ (RespelledText pairs) inputs otherInputs)
    (allOutputs : List.Forall₂ (RespelledText pairs) outputs otherOutputs)
    (bodies : Instruction.AllCorrespond pairs body otherBody) :
    DrawInStep pairs Same (moduleDef compile name inputs outputs body)
      (moduleDef compile otherName otherInputs otherOutputs otherBody) := by
  refine (stayInStep_takeAhead names (.moduleDef names allInputs allOutputs bodies)).bind_draws
    fun {taken _} same => ?_
  subst same
  cases taken with
  | true => exact (stayInStep_log _ _).draws
  | false =>
      refine (stayInStep_log _ _).bind_draws fun _ => ?_
      refine stayInStep_layerCount.bind_draws fun {count _} same => ?_
      subst same
      refine drawInStep_bind (drawInStep_children keeps each count [] bodies)
        (fun _ _ => steps_keepUsed.finishModule _ _) (fun _ _ => steps_keepUsed.finishModule _ _)
        fun {more} grows {gathered _} same => ?_
      subst same
      exact (stayInStep_finishModule (names.mono grows) gathered).draws

private theorem drawInStep_rounds {counter : String} (plain : '_' ∉ counter.toList) :
    ∀ (count : Nat) (value : Int) {pairs : List (String × String)}
      {body otherBody : List Instruction}, Instruction.AllCorrespond pairs body otherBody →
        DrawInStep pairs Same (rounds compile counter body count value)
          (rounds compile counter otherBody count value)
  | 0, _, _, _, _, _ => (stayInStep_pure rfl).draws
  | count + 1, value, _, _, _, bodies => by
      have follows (body : List Instruction) :
          KeepsAll (rounds compile counter body count (value + 1)) :=
        fun suffix => maintains_rounds steps_keepUsed (fun _ _ _ inner _ => keeps inner suffix) _ _
      have substitutions {pairs : List (String × String)} :
          (roundSubstitution counter value).Corresponds pairs (roundSubstitution counter value) :=
        Substitution.corresponds_empty.bind (.text plain (respelledName_number value))
      exact drawInStep_bind (drawInStep_filled keeps each substitutions bodies)
        (fun _ => follows _) (fun _ => follows _) fun grows _ _ _ =>
          drawInStep_rounds plain count (value + 1) (bodies.mono grows)

private theorem drawInStep_loop {counter first last otherFirst otherLast : String}
    {body otherBody : List Instruction} (plain : '_' ∉ counter.toList)
    (firsts : RespelledText pairs first otherFirst) (lasts : RespelledText pairs last otherLast)
    (bodies : Instruction.AllCorrespond pairs body otherBody) :
    DrawInStep pairs Same (loop compile counter first last body)
      (loop compile counter otherFirst otherLast otherBody) := by
  refine (stayInStep_loopRange counter firsts lasts _ _).bind_draws fun {range _} same => ?_
  subst same
  exact drawInStep_rounds keeps each plain range.2 range.1 bodies

private theorem drawInStep_branchRoot {label : String} (isLabel : Suffix.IsLabel label.toList)
    {body otherBody : List Instruction}
    (bodies : Instruction.AllCorrespond pairs body otherBody) :
    DrawInStep pairs Same (branchRoot compile label body)
      (branchRoot compile label otherBody) := by
  have sameEmpty : body.isEmpty = otherBody.isEmpty := by
    cases bodies <;> rfl
  unfold branchRoot
  rw [sameEmpty]
  split
  · exact (stayInStep_pure rfl).draws
  have leaves (opened : OpenBranch) : KeepsAll (leaveBranch opened) :=
    fun _ => steps_keepUsed.leaveBranch opened
  have follows (opened : OpenBranch) (body : List Instruction) : KeepsAll (do
      filled compile opened.substitution body
      leaveBranch opened) :=
    fun suffix => maintains_bind (keepsAll_filled keeps opened.substitution body suffix) fun _ =>
      leaves opened suffix
  refine drawInStep_bind (drawInStep_enterBranch isLabel bodies) (fun _ => follows _ _)
    (fun _ => follows _ _) fun {more} grows {opened otherOpened} branches => ?_
  refine drawInStep_bind
    (drawInStep_filled keeps each branches.substitution (bodies.mono grows)) (fun _ => leaves _)
    (fun _ => leaves _) fun growsMore _ _ _ => ?_
  exact (stayInStep_leaveBranch
    { branches with substitution := branches.substitution.mono growsMore }).draws

private theorem drawInStep_branch {name otherName : Option String} {test otherTest : Instruction}
    {body otherBody alternative otherAlternative : List Instruction}
    (names : Option.Rel (RespelledName pairs) name otherName)
    (tests : test.Corresponds pairs otherTest)
    (bodies : Instruction.AllCorrespond pairs body otherBody)
    (alternatives : Instruction.AllCorrespond pairs alternative otherAlternative) :
    DrawInStep pairs Same (branch compile name test body alternative)
      (branch compile otherName otherTest otherBody otherAlternative) := by
  have isLabel (label : String) (plain : label.toList ≠ [] ∧ label.toList.all Char.isAlphanum) :
      Suffix.IsLabel label.toList :=
    ⟨plain.1, List.all_eq_true.1 plain.2⟩
  have finishes (plan : BranchPlan) (thenRoot elseRoot : Option LayerId) :
      KeepsAll (finishBranch plan thenRoot elseRoot) :=
    fun _ => steps_keepUsed.finishBranch plan thenRoot elseRoot
  have follows (plan : BranchPlan) (thenRoot : Option LayerId) : KeepsAll (do
      let elseRoot ← branchRoot compile "else" plan.second
      finishBranch plan thenRoot elseRoot) :=
    fun suffix => maintains_bind (keepsAll_branchRoot keeps "else" plan.second suffix) fun _ =>
      finishes plan _ _ suffix
  refine (stayInStep_planBranch names tests bodies alternatives).bind_draws
    fun {plan otherPlan} plans => ?_
  refine drawInStep_bind
    (drawInStep_branchRoot keeps each (isLabel "then" (by decide)) plans.first)
    (fun _ => follows _ _) (fun _ => follows _ _) fun {more} grows {thenRoot _} same => ?_
  subst same
  refine drawInStep_bind
    (drawInStep_branchRoot keeps each (isLabel "else" (by decide)) (plans.second.mono grows))
    (fun _ => finishes _ _ _) (fun _ => finishes _ _ _)
    fun {last} growsMore {elseRoot _} same => ?_
  subst same
  exact (stayInStep_finishBranch (plans.mono (List.Subset.trans grows growsMore)) thenRoot
    elseRoot).draws

private theorem drawInStep_templateCall {name otherName : String} {args otherArgs : List String}
    (names : RespelledText pairs name otherName)
    (allArgs : List.Forall₂ (RespelledName pairs) args otherArgs) :
    DrawInStep pairs Same (templateCall compile name args)
      (templateCall compile otherName otherArgs) :=
  drawInStep_bind (drawInStep_openTemplate names allArgs) (fun _ => keepsAll_filled keeps _ _)
    (fun _ => keepsAll_filled keeps _ _) fun _ _ _ opened =>
      drawInStep_filled keeps each opened.substitution opened.body

private theorem drawInStep_step {one other : Instruction}
    (instructions : one.Corresponds pairs other) :
    DrawInStep pairs Same (step compile one) (step compile other) := by
  cases instructions with
  | program bodies => exact drawInStep_all keeps each bodies
  | block bodies => exact drawInStep_all keeps each bodies
  | layer specs => exact (stayInStep_layer specs).draws
  | connect sources targets => exact drawInStep_connect keeps each sources targets
  | moduleDef names allInputs allOutputs bodies =>
      exact drawInStep_moduleDef keeps each names allInputs allOutputs bodies
  | loop plain firsts lasts bodies => exact drawInStep_loop keeps each plain firsts lasts bodies
  | branch names tests bodies alternatives =>
      exact drawInStep_branch keeps each names tests bodies alternatives
  | templateDef isLabel plain bodies =>
      exact (stayInStep_templateDef isLabel (.templateDef isLabel plain bodies)).draws
  | templateCall names allArgs => exact drawInStep_templateCall keeps each names allArgs
  | call names allArgs => exact drawInStep_templateCall keeps each names allArgs
  | expand groups entries bodies =>
      rw [step, step]
      exact (stayInStep_startExpand groups entries _ _).bind_draws fun _ =>
        drawInStep_all keeps each bodies
  | _ =>
      refine (stayInStep_throw ?_).draws
      rfl

end Constructs

/-- Instructions that correspond are compiled in step within every depth. -/
theorem drawInStep_within : ∀ (depth : Nat) {pairs : List (String × String)}
    {one other : Instruction}, one.Corresponds pairs other →
      DrawInStep pairs Same (within depth one) (within depth other)
  | 0, _, _, _, _ => (stayInStep_throw rfl).draws
  | depth + 1, _, _, _, instructions =>
      drawInStep_step (fun inner _ => keepsUsed_within depth inner) (drawInStep_within depth)
        instructions

end NetBlueprint.Compile
