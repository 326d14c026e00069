import NetBlueprint.Proofs.Compiler.Watching

/-!
Contract: what one instruction does, in terms of the instructions it comes to.

`Unfolds instruction before inner after` spells out how an instruction leads from one state to
another by single steps and by visits of other instructions. Every visit of a watched run unfolds
so, and the visits below it do as well: `Visit.Faithful`.

Owns: the unfolding of every construct.

Does not own: what the single steps do to the state.
-/

namespace NetBlueprint

namespace Compile

def Is (instruction : Instruction) (visit : Visit) : Prop :=
  visit.instruction = instruction

/-- A visit is one of a template after a substitution has been filled in. -/
def FilledIn (substitution : Substitution) (template : Instruction) (visit : Visit) : Prop :=
  substitution.apply template = .ok visit.instruction

/-- Visits that match a list of instructions, each from where the one before it ended. -/
inductive Sequence (Matches : Instruction → Visit → Prop) :
    List Instruction → CompileState → List Visit → CompileState → Prop where
  | done (state : CompileState) : Sequence Matches [] state [] state
  | next {template : Instruction} {rest : List Instruction} {visit : Visit} {inner : List Visit}
      {after : CompileState} (matching : Matches template visit)
      (following : Sequence Matches rest visit.after inner after) :
      Sequence Matches (template :: rest) visit.before (visit :: inner) after

inductive Rounds (counter : String) (body : List Instruction) :
    Nat → Int → CompileState → List Visit → CompileState → Prop where
  | done (value : Int) (state : CompileState) : Rounds counter body 0 value state [] state
  | round {count : Nat} {value : Int} {before between after : CompileState}
      {first rest : List Visit}
      (filled : Sequence (FilledIn (roundSubstitution counter value)) body before first between)
      (following : Rounds counter body count (value + 1) between rest after) :
      Rounds counter body (count + 1) value before (first ++ rest) after

inductive Ahead (name : String) : CompileState → List Visit → CompileState → Prop where
  | skipped {before after : CompileState} (started : Runs (startAhead name) before none after) :
      Ahead name before [] after
  | turned {before after : CompileState} {visit : Visit} {saved : ScopeId}
      (started : Runs (startAhead name) before (some (visit.instruction, saved)) visit.before)
      (finished : Runs (finishAhead name saved) visit.after () after) :
      Ahead name before [visit] after

/-- An endpoint is compiled ahead where it cannot be resolved exactly. -/
inductive Ensured (scope : ScopeId) (endpoint : String) :
    CompileState → List Visit → CompileState → Prop where
  | known {before after : CompileState}
      (known : Runs (isUnknown scope endpoint) before false after) :
      Ensured scope endpoint before [] after
  | unknown {before between after : CompileState} {inner : List Visit}
      (unknown : Runs (isUnknown scope endpoint) before true between)
      (ahead : Ahead endpoint between inner after) : Ensured scope endpoint before inner after

inductive Rooted (label : String) (body : List Instruction) :
    CompileState → List Visit → Option LayerId → CompileState → Prop where
  | absent (state : CompileState) (nothing : body = []) : Rooted label body state [] none state
  | compiled {before start finish after : CompileState} {opened : OpenBranch} {inner : List Visit}
      {root : Option LayerId}
      (entered : Runs (enterBranch label body) before opened start)
      (filled : Sequence (FilledIn opened.substitution) body start inner finish)
      (left : Runs (leaveBranch opened) finish root after) :
      Rooted label body before inner root after

inductive Children (start : Nat) :
    List LayerId → List Instruction → CompileState → List Visit → List LayerId → CompileState →
      Prop where
  | done (gathered : List LayerId) (state : CompileState) :
      Children start gathered [] state [] gathered state
  | next {gathered more all : List LayerId} {rest : List Instruction} {visit : Visit}
      {inner : List Visit} {between after : CompileState}
      (gathers : Runs (gather start visit.before.network.size gathered visit.instruction)
        visit.after more between)
      (following : Children start more rest between inner all after) :
      Children start gathered (visit.instruction :: rest) visit.before (visit :: inner) all after

/-- How an instruction leads from one state to another. -/
inductive Unfolds : Instruction → CompileState → List Visit → CompileState → Prop where
  | program {body before inner after} (sequence : Sequence Is body before inner after) :
      Unfolds (.program body) before inner after
  | block {body before inner after} (sequence : Sequence Is body before inner after) :
      Unfolds (.block body) before inner after
  | layer {spec before after} (ran : Runs (layer spec) before () after) :
      Unfolds (.layer spec) before [] after
  | connect {source target before started between ensured after scope first second}
      (starts : Runs (startConnect source target) before scope started)
      (sourceEnsured : Ensured scope source started first between)
      (targetEnsured : Ensured scope target between second ensured)
      (finishes : Runs (finishConnect scope source target) ensured () after) :
      Unfolds (.connect source target) before (first ++ second) after
  | moduleTaken {name inputs outputs body before taken after}
      (takes : Runs (takeAhead name (.moduleDef name inputs outputs body)) before true taken)
      (logs : Runs (log s!"MODULE_DEF '{name}' already compiled lazily, skipping") taken () after) :
      Unfolds (.moduleDef name inputs outputs body) before [] after
  | moduleDef {name inputs outputs body before taken logged gathered inner finish after}
      (takes : Runs (takeAhead name (.moduleDef name inputs outputs body)) before false taken)
      (logs : Runs (log s!"MODULE_DEF '{name}': {body.length} instruction(s)") taken () logged)
      (children : Children logged.network.size [] body logged inner gathered finish)
      (finishes : Runs (finishModule name gathered) finish () after) :
      Unfolds (.moduleDef name inputs outputs body) before inner after
  | loop {counter first last body before start inner after low count}
      (opens : Runs (loopRange counter first last body.length) before (low, count) start)
      (rounds : Rounds counter body count low start inner after) :
      Unfolds (.loop counter first last body) before inner after
  | branch {name test body alternative before start between finish after plan} {first second}
      {thenRoot elseRoot}
      (plans : Runs (planBranch name test body alternative) before plan start)
      (thenRooted : Rooted "then" plan.first start first thenRoot between)
      (elseRooted : Rooted "else" plan.second between second elseRoot finish)
      (finishes : Runs (finishBranch plan thenRoot elseRoot) finish () after) :
      Unfolds (.branch name test body alternative) before (first ++ second) after
  | templateDef {name parameters body before after}
      (ran : Runs (templateDef name parameters body) before () after) :
      Unfolds (.templateDef name parameters body) before [] after
  | templateCall {name args before start inner after opened}
      (opens : Runs (openTemplate name args) before opened start)
      (filled : Sequence (FilledIn opened.substitution) opened.body start inner after) :
      Unfolds (.templateCall name args) before inner after
  | call {name args before start inner after opened}
      (opens : Runs (openTemplate name args) before opened start)
      (filled : Sequence (FilledIn opened.substitution) opened.body start inner after) :
      Unfolds (.call name args) before inner after
  | expand {group annotations body before start inner after}
      (opens : Runs (startExpand group annotations body.length) before () start)
      (sequence : Sequence Is body start inner after) :
      Unfolds (.expand group annotations body) before inner after

end Compile

/-- A visit whose inner visits are those its instruction comes to, all the way down. -/
inductive Visit.Faithful : Visit → Prop where
  | intro {visit : Visit}
      (unfolds : Compile.Unfolds visit.instruction visit.before visit.inner visit.after)
      (inner : ∀ below ∈ visit.inner, Visit.Faithful below) : Visit.Faithful visit

namespace Compile

/-- Whatever a watched action achieves has a meaning in terms of the visits it adds, and these are
good. -/
def Notes {Result : Type} (Good : Visit → Prop) (action : WatchedM Result)
    (Meaning : CompileState → List Visit → Result → CompileState → Prop) : Prop :=
  ∀ (earlier later : List Visit) (before after : CompileState) (result : Result),
    Runs (action earlier) before (result, later) after →
      ∃ inner, later = earlier ++ inner ∧ (∀ visit ∈ inner, Good visit) ∧
        Meaning before inner result after

section Combinators

variable {Result Next : Type} {Good : Visit → Prop}

theorem Notes.of_runs {action : WatchedM Result}
    {Meaning : CompileState → List Visit → Result → CompileState → Prop}
    (notes : Notes Good action Meaning) {earlier later : List Visit}
    {before after : CompileState} {result : Result}
    (ran : Runs (action earlier) before (result, later) after) :
    ∃ inner, later = earlier ++ inner ∧ (∀ visit ∈ inner, Good visit) ∧
      Meaning before inner result after :=
  notes earlier later before after result ran

theorem notes_pure (value : Result) :
    Notes Good (pure value) fun before inner result after =>
      inner = [] ∧ result = value ∧ after = before := by
  intro earlier later before after result ran
  obtain ⟨rfl, rfl, rfl⟩ := runs_watched_pure.1 ran
  exact ⟨[], (List.append_nil _).symm, fun _ => (absurd · List.not_mem_nil), rfl, rfl, rfl⟩

theorem notes_lift (action : CompileM Result) :
    Notes Good (liftM action) fun before inner result after =>
      inner = [] ∧ Runs action before result after := by
  intro earlier later before after result ran
  obtain ⟨rfl, stepped⟩ := runs_watched_lift.1 ran
  exact ⟨[], (List.append_nil _).symm, fun _ => (absurd · List.not_mem_nil), rfl, stepped⟩

theorem notes_bind {action : WatchedM Result} {next : Result → WatchedM Next}
    {First : CompileState → List Visit → Result → CompileState → Prop}
    {Second : Result → CompileState → List Visit → Next → CompileState → Prop}
    (first : Notes Good action First) (second : ∀ value, Notes Good (next value) (Second value)) :
    Notes Good (action >>= next) fun before inner result after =>
      ∃ value between early late, inner = early ++ late ∧ First before early value between ∧
        Second value between late result after := by
  intro earlier later before after result ran
  obtain ⟨value, visits, between, firstRan, secondRan⟩ := runs_watched_bind.1 ran
  obtain ⟨early, rfl, earlyGood, firstMeans⟩ := first.of_runs firstRan
  obtain ⟨late, rfl, lateGood, secondMeans⟩ := (second value).of_runs secondRan
  refine ⟨early ++ late, List.append_assoc _ _ _, ?_, value, between, early, late, rfl, firstMeans,
    secondMeans⟩
  intro visit member
  exact (List.mem_append.1 member).elim (earlyGood visit) (lateGood visit)

/-- A single step comes before whatever is noted after it. -/
theorem notes_lift_bind {action : CompileM Result} {next : Result → WatchedM Next}
    {Second : Result → CompileState → List Visit → Next → CompileState → Prop}
    (second : ∀ value, Notes Good (next value) (Second value)) :
    Notes Good (liftM action >>= next) fun before inner result after =>
      ∃ value between, Runs action before value between ∧
        Second value between inner result after := by
  intro earlier later before after result ran
  obtain ⟨_, rfl, good, value, between, _, inner, rfl, ⟨rfl, stepped⟩, means⟩ :=
    (notes_bind (notes_lift action) second).of_runs ran
  exact ⟨inner, rfl, good, value, between, stepped, means⟩

theorem Notes.imp {action : WatchedM Result}
    {First Second : CompileState → List Visit → Result → CompileState → Prop}
    (notes : Notes Good action First)
    (weaker : ∀ before inner result after, First before inner result after →
      Second before inner result after) : Notes Good action Second := by
  intro earlier later before after result ran
  obtain ⟨inner, same, good, means⟩ := notes.of_runs ran
  exact ⟨inner, same, good, weaker _ _ _ _ means⟩

end Combinators

section Inner

variable {Good : Visit → Prop} {watching : Instruction → WatchedM Unit}

def NotesEach (Good : Visit → Prop) (watching : Instruction → WatchedM Unit) : Prop :=
  ∀ instruction, Notes Good (watching instruction) fun before inner _ after =>
    ∃ visit : Visit, inner = [visit] ∧ visit.instruction = instruction ∧ visit.before = before ∧
      visit.after = after

private theorem notes_all (each : NotesEach Good watching) :
    ∀ body, Notes Good (all watching body) fun before inner _ after =>
      Sequence Is body before inner after
  | [] => (notes_pure ()).imp fun _ _ _ _ means => by
      obtain ⟨rfl, _, rfl⟩ := means
      exact .done _
  | first :: rest =>
      (notes_bind (each first) fun _ => notes_all each rest).imp fun _ _ _ _ means => by
        obtain ⟨_, _, _, _, rfl, ⟨visit, rfl, same, rfl, rfl⟩, following⟩ := means
        exact .next same following

private theorem notes_filled (each : NotesEach Good watching) (substitution : Substitution) :
    ∀ body, Notes Good (filled watching substitution body) fun before inner _ after =>
      Sequence (FilledIn substitution) body before inner after
  | [] => (notes_pure ()).imp fun _ _ _ _ means => by
      obtain ⟨rfl, _, rfl⟩ := means
      exact .done _
  | first :: rest =>
      (notes_lift_bind fun instruction =>
        notes_bind (each instruction) fun _ => notes_filled each substitution rest).imp
      fun _ _ _ _ means => by
        obtain ⟨_, _, filled, _, _, _, _, rfl, ⟨visit, rfl, rfl, same, rfl⟩, following⟩ := means
        obtain ⟨applied, rfl⟩ := runs_expression.1 filled
        rw [← same]
        exact .next applied following

private theorem notes_rounds (each : NotesEach Good watching) (counter : String)
    (body : List Instruction) :
    ∀ count value, Notes Good (rounds watching counter body count value)
      fun before inner _ after => Rounds counter body count value before inner after
  | 0, value => (notes_pure ()).imp fun _ _ _ _ means => by
      obtain ⟨rfl, _, rfl⟩ := means
      exact .done value _
  | count + 1, value =>
      (notes_bind (notes_filled each (roundSubstitution counter value) body) fun _ =>
        notes_rounds each counter body count (value + 1)).imp fun _ _ _ _ means => by
        obtain ⟨_, _, _, _, rfl, filled, following⟩ := means
        exact .round filled following

private theorem notes_ahead (each : NotesEach Good watching) (name : String) :
    Notes Good (ahead watching name) fun before inner _ after => Ahead name before inner after := by
  intro earlier later before after _ ran
  obtain ⟨_, _, between, started, rest⟩ := runs_watched_bind.1 ran
  obtain ⟨rfl, starts⟩ := runs_watched_lift.1 started
  rename_i turned _
  cases turned with
  | none =>
      obtain ⟨inner, same, good, rfl, _, rfl⟩ := (notes_pure ()).of_runs rest
      exact ⟨[], same, good, .skipped starts⟩
  | some turned =>
      obtain ⟨instruction, saved⟩ := turned
      obtain ⟨_, same, good, _, _, _, _, rfl, ⟨visit, rfl, rfl, rfl, rfl⟩, rfl, finishes⟩ :=
        (notes_bind (each instruction) fun _ => notes_lift (finishAhead name saved)).of_runs rest
      exact ⟨_, same, good, .turned starts finishes⟩

private theorem notes_ensure (each : NotesEach Good watching) (scope : ScopeId)
    (endpoint : String) :
    Notes Good (ensure watching scope endpoint) fun before inner _ after =>
      Ensured scope endpoint before inner after := by
  intro earlier later before after _ ran
  obtain ⟨unknown, _, between, asked, rest⟩ := runs_watched_bind.1 ran
  obtain ⟨rfl, asks⟩ := runs_watched_lift.1 asked
  cases unknown with
  | false =>
      obtain ⟨inner, same, good, rfl, _, rfl⟩ := (notes_pure ()).of_runs rest
      exact ⟨[], same, good, .known asks⟩
  | true =>
      obtain ⟨inner, same, good, turned⟩ := (notes_ahead each endpoint).of_runs rest
      exact ⟨inner, same, good, .unknown asks turned⟩

private theorem notes_connect (each : NotesEach Good watching) (source target : String) :
    Notes Good (connect watching source target) fun before inner _ after =>
      Unfolds (.connect source target) before inner after :=
  (notes_lift_bind fun scope => notes_bind (notes_ensure each scope source) fun _ =>
    notes_bind (notes_ensure each scope target) fun _ => notes_lift _).imp
  fun _ _ _ _ means => by
    obtain ⟨_, _, starts, _, _, _, _, rfl, sourceEnsured, _, _, _, _, rfl, targetEnsured, rfl,
      finishes⟩ := means
    rw [List.append_nil]
    exact .connect starts sourceEnsured targetEnsured finishes

private theorem notes_branchRoot (each : NotesEach Good watching) (label : String)
    (body : List Instruction) :
    Notes Good (branchRoot watching label body) fun before inner root after =>
      Rooted label body before inner root after := by
  unfold branchRoot
  split
  · rename_i nothing
    refine (notes_pure none).imp fun _ _ _ _ means => ?_
    obtain ⟨rfl, rfl, rfl⟩ := means
    exact .absent _ (List.isEmpty_iff.1 nothing)
  · refine (notes_lift_bind fun (opened : OpenBranch) =>
      notes_bind (notes_filled each opened.substitution body) fun _ => notes_lift _).imp
      fun _ _ _ _ means => ?_
    obtain ⟨_, _, entered, _, _, _, _, rfl, filled, rfl, left⟩ := means
    rw [List.append_nil]
    exact .compiled entered filled left

private theorem notes_branch (each : NotesEach Good watching) (name : Option String)
    (test : Instruction)
    (body alternative : List Instruction) :
    Notes Good (branch watching name test body alternative) fun before inner _ after =>
      Unfolds (.branch name test body alternative) before inner after :=
  (notes_lift_bind fun (plan : BranchPlan) =>
    notes_bind (notes_branchRoot each "then" plan.first) fun _ =>
    notes_bind (notes_branchRoot each "else" plan.second) fun _ => notes_lift _).imp
  fun _ _ _ _ means => by
    obtain ⟨_, _, plans, _, _, _, _, rfl, thenRooted, _, _, _, _, rfl, elseRooted, rfl,
      finishes⟩ := means
    rw [List.append_nil]
    exact .branch plans thenRooted elseRooted finishes

private theorem runs_layerCount {before after : CompileState} {count : Nat} :
    Runs layerCount before count after ↔ count = before.network.size ∧ after = before := by
  constructor
  · intro ran
    obtain ⟨_, _, got, rest⟩ := runs_bind.1 ran
    obtain ⟨rfl, rfl⟩ := runs_get.1 got
    exact runs_pure.1 rest
  · rintro ⟨rfl, rfl⟩
    exact runs_bind.2 ⟨_, _, runs_get.2 ⟨rfl, rfl⟩, runs_pure.2 ⟨rfl, rfl⟩⟩

private theorem notes_children (each : NotesEach Good watching) (start : Nat) :
    ∀ gathered body, Notes Good (children watching start gathered body)
      fun before inner all after => Children start gathered body before inner all after
  | gathered, [] => (notes_pure gathered).imp fun _ _ _ _ means => by
      obtain ⟨rfl, rfl, rfl⟩ := means
      exact .done _ _
  | gathered, child :: rest =>
      (notes_lift_bind fun before => notes_bind (each child) fun _ =>
        notes_lift_bind fun more => notes_children each start more rest).imp
      fun _ _ _ _ means => by
        obtain ⟨_, _, counted, _, _, _, _, rfl, ⟨visit, rfl, rfl, same, rfl⟩, _, _, gathers,
          following⟩ := means
        obtain ⟨rfl, rfl⟩ := runs_layerCount.1 counted
        rw [← same] at gathers ⊢
        exact .next gathers following

private theorem notes_moduleDef (each : NotesEach Good watching) (name : String)
    (inputs outputs : List String) (body : List Instruction) :
    Notes Good (moduleDef watching name inputs outputs body) fun before inner _ after =>
      Unfolds (.moduleDef name inputs outputs body) before inner after := by
  intro earlier later before after _ ran
  obtain ⟨taken, _, between, asked, rest⟩ := runs_watched_bind.1 ran
  obtain ⟨rfl, takes⟩ := runs_watched_lift.1 asked
  cases taken with
  | true =>
      obtain ⟨_, same, good, rfl, logs⟩ := (notes_lift _).of_runs rest
      exact ⟨[], same, good, .moduleTaken takes logs⟩
  | false =>
      obtain ⟨inner, same, good, _, _, logs, start, _, counted, gathered, _, _, _, rfl, gathers,
        rfl, finishes⟩ :=
        (notes_lift_bind fun _ => notes_lift_bind fun start =>
          notes_bind (notes_children each start [] body) fun _ => notes_lift _).of_runs rest
      obtain ⟨rfl, rfl⟩ := runs_layerCount.1 counted
      rw [List.append_nil] at same good
      exact ⟨_, same, good, .moduleDef takes logs gathers finishes⟩

private theorem notes_loop (each : NotesEach Good watching) (counter first last : String)
    (body : List Instruction) :
    Notes Good (loop watching counter first last body) fun before inner _ after =>
      Unfolds (.loop counter first last body) before inner after :=
  (notes_lift_bind fun (range : Int × Nat) => notes_rounds each counter body range.2 range.1).imp
  fun _ _ _ _ means => by
    obtain ⟨_, _, opens, rounds⟩ := means
    exact .loop opens rounds

private theorem notes_templateCall (each : NotesEach Good watching) (name : String)
    (args : List String) :
    Notes Good (templateCall watching name args) fun before inner _ after =>
      ∃ opened start, Runs (openTemplate name args) before opened start ∧
        Sequence (FilledIn opened.substitution) opened.body start inner after :=
  notes_lift_bind fun (opened : OpenTemplate) =>
    notes_filled each opened.substitution opened.body

private theorem notes_expand (each : NotesEach Good watching) (group : Option String)
    (annotations : TextTable) (body : List Instruction) :
    Notes Good (expand watching group annotations body) fun before inner _ after =>
      Unfolds (.expand group annotations body) before inner after :=
  (notes_lift_bind fun _ => notes_all each body).imp fun _ _ _ _ means => by
    obtain ⟨_, _, opens, sequence⟩ := means
    exact .expand opens sequence

private theorem notes_refuse (opcode : Opcode)
    (Meaning : CompileState → List Visit → Unit → CompileState → Prop) :
    Notes Good (liftM (refuse opcode)) Meaning :=
  (notes_lift _).imp fun _ _ _ _ means => absurd means.2 not_runs_throw

/-- One step unfolds an instruction. -/
theorem notes_step (each : NotesEach Good watching) (instruction : Instruction) :
    Notes Good (step watching instruction) fun before inner _ after =>
      Unfolds instruction before inner after := by
  cases instruction with
  | program body => exact (notes_all each body).imp fun _ _ _ _ => .program
  | block body => exact (notes_all each body).imp fun _ _ _ _ => .block
  | layer spec =>
      refine (notes_lift (layer spec)).imp fun _ _ _ _ means => ?_
      obtain ⟨rfl, ran⟩ := means
      exact .layer ran
  | templateDef name parameters body =>
      refine (notes_lift (templateDef name parameters body)).imp fun _ _ _ _ means => ?_
      obtain ⟨rfl, ran⟩ := means
      exact .templateDef ran
  | connect source target => exact notes_connect each source target
  | moduleDef name inputs outputs body => exact notes_moduleDef each name inputs outputs body
  | loop counter first last body => exact notes_loop each counter first last body
  | branch name test body alternative => exact notes_branch each name test body alternative
  | templateCall name args =>
      refine (notes_templateCall each name args).imp fun _ _ _ _ means => ?_
      obtain ⟨_, _, opens, filled⟩ := means
      exact .templateCall opens filled
  | call name args =>
      refine (notes_templateCall each name args).imp fun _ _ _ _ means => ?_
      obtain ⟨_, _, opens, filled⟩ := means
      exact .call opens filled
  | expand group annotations body => exact notes_expand each group annotations body
  | moduleCall _ _ => exact notes_refuse _ _
  | condition _ => exact notes_refuse _ _
  | constant _ _ => exact notes_refuse _ _
  | file _ => exact notes_refuse _ _
  | otherwise _ => exact notes_refuse _ _

end Inner

/-- Every watched instruction is noted as one faithful visit. -/
theorem notes_watched : ∀ depth, NotesEach Visit.Faithful (watched depth)
  | 0, instruction => by
      intro earlier later before after _ ran
      exact absurd ran not_runs_watched_zero
  | depth + 1, instruction => by
      intro earlier later before after _ ran
      obtain ⟨inner, stepped, rfl⟩ := runs_watched_succ.1 ran
      obtain ⟨visits, same, faithful, unfolds⟩ :=
        (notes_step (notes_watched depth) instruction).of_runs stepped
      rw [List.nil_append] at same
      subst same
      refine ⟨_, rfl, ?_, _, rfl, rfl, rfl, rfl⟩
      intro visit member
      cases List.mem_singleton.1 member
      exact .intro unfolds faithful

/-- An instruction that is compiled can be watched. -/
theorem exists_visit_of_within {depth : Nat} {instruction : Instruction}
    {before after : CompileState} (ran : Runs (within depth instruction) before () after) :
    ∃ visit : Visit, visit.Faithful ∧ visit.instruction = instruction ∧ visit.before = before ∧
      visit.after = after := by
  obtain ⟨later, watches⟩ := watches_within depth instruction ran []
  obtain ⟨inner, rfl⟩ := exists_visit_of_watched watches
  obtain ⟨_, same, faithful, _⟩ := (notes_watched depth instruction).of_runs watches
  rw [List.nil_append] at same
  subst same
  exact ⟨_, faithful _ (List.mem_singleton_self _), rfl, rfl, rfl⟩

/-- An endpoint that is compiled where it has to be can be watched. -/
theorem exists_ensured_of_runs {depth : Nat} {scope : ScopeId} {endpoint : String}
    {before after : CompileState}
    (ran : Runs (ensure (within depth) scope endpoint) before () after) :
    ∃ inner, Ensured scope endpoint before inner after ∧ ∀ visit ∈ inner, visit.Faithful := by
  obtain ⟨later, watches⟩ := watches_ensure (watches_within depth) scope endpoint ran []
  obtain ⟨inner, _, faithful, ensured⟩ :=
    (notes_ensure (notes_watched depth) scope endpoint).of_runs watches
  exact ⟨inner, ensured, faithful⟩

end Compile

end NetBlueprint
