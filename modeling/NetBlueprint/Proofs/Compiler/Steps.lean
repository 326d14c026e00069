import NetBlueprint.Proofs.Compiler.Growth
import NetBlueprint.Proofs.Compiler.Success

/-!
Contract: what the single steps of a compilation do to its state.

Most steps are quiet: they log, draw words, move between scopes, or keep books that no lookup reads.
Each step has one lemma here, and what compiles whole instructions is read through these lemmas
alone.

Owns: quiet steps, fresh suffixes, opening and closing of scopes, and what connections and branches
do last.

Does not own: the declarations of layers.
-/

namespace NetBlueprint

namespace CompileState

/-- What the lookups of a compilation read, with the books that only grow. -/
def lookedUp (state : CompileState) :=
  (state.network.layers, state.network.issues, state.scopes, state.firstNamed, state.inputCache,
    state.pending, state.usedSuffixes, state.branchCount)

namespace Quiet

/-- A step that leaves all that is looked up as it was is quiet, whatever else it writes. -/
theorem of_lookedUp {before after : CompileState} (same : after.lookedUp = before.lookedUp) :
    before.Quiet after := by
  simp only [lookedUp, Prod.mk.injEq] at same
  obtain ⟨layers, issues, scopes, firstNamed, inputCache, pending, suffixes, branches⟩ := same
  exact ⟨layers, issues, scopes, firstNamed, inputCache, pending,
    suffixes ▸ List.Subset.refl _, Nat.le_of_eq branches.symm⟩

theorem refl (state : CompileState) : state.Quiet state :=
  of_lookedUp rfl

theorem trans {first second third : CompileState} (earlier : first.Quiet second)
    (later : second.Quiet third) : first.Quiet third where
  layers := later.layers.trans earlier.layers
  issues := later.issues.trans earlier.issues
  scopes := later.scopes.trans earlier.scopes
  firstNamed := later.firstNamed.trans earlier.firstNamed
  inputCache := later.inputCache.trans earlier.inputCache
  pending := later.pending.trans earlier.pending
  usedSuffixes := List.Subset.trans earlier.usedSuffixes later.usedSuffixes
  branchCount := Nat.le_trans earlier.branchCount later.branchCount

theorem nodes {before after : CompileState} (quiet : before.Quiet after) :
    after.network.nodes = before.network.nodes :=
  Network.nodes_of_layers quiet.layers

end Quiet

/-- A line of the trace disturbs no lookup. -/
theorem quiet_logged (state : CompileState) (line : String) : state.Quiet (state.logged line) :=
  .of_lookedUp rfl

/-- Decides whether a connection from a name adds an input: the name is one of an auto-input and
stands for nothing yet, and the base input is there. -/
def wantsInput (state : CompileState) (name : String) : Bool :=
  Name.isAutoInput name && (state.resolveExact state.current name).isNone &&
    ((state.resolveExact state.current Name.autoInputBase).bind state.network.layer?).any
      fun layer => layer.kind.isInput

end CompileState

namespace Compile

section Quiet

variable {Result Next : Type} {before after : CompileState}

/-- Wherever an action succeeds, nothing is changed that a lookup reads. -/
def IsQuiet (action : CompileM Result) : Prop :=
  ∀ before result after, Runs action before result after → before.Quiet after

theorem isQuiet_pure (value : Result) : IsQuiet (pure value) := by
  intro before result after ran
  rw [(runs_pure.1 ran).2]
  exact .refl before

theorem isQuiet_get : IsQuiet get := by
  intro before result after ran
  rw [(runs_get.1 ran).2]
  exact .refl before

theorem isQuiet_modify {change : CompileState → CompileState}
    (quiet : ∀ state : CompileState, state.Quiet (change state)) : IsQuiet (modify change) := by
  intro before result after ran
  rw [runs_modify.1 ran]
  exact quiet before

theorem isQuiet_bind {action : CompileM Result} {next : Result → CompileM Next}
    (first : IsQuiet action) (second : ∀ value, IsQuiet (next value)) :
    IsQuiet (action >>= next) := by
  intro before result after ran
  obtain ⟨middle, between, firstRan, secondRan⟩ := runs_bind.1 ran
  exact (first _ _ _ firstRan).trans (second middle _ _ _ secondRan)

theorem isQuiet_log (line : String) : IsQuiet (log line) :=
  isQuiet_modify fun state => state.quiet_logged line

theorem isQuiet_startAhead (name : String) : IsQuiet (startAhead name) := by
  refine isQuiet_bind isQuiet_get fun state => ?_
  split
  · exact isQuiet_pure none
  split
  · exact isQuiet_pure none
  · exact isQuiet_pure none
  · exact isQuiet_bind (isQuiet_modify fun _ => .of_lookedUp rfl) fun _ =>
      isQuiet_bind (isQuiet_log _) fun _ =>
      isQuiet_bind (isQuiet_modify fun _ => .of_lookedUp rfl) fun _ => isQuiet_pure _

theorem isQuiet_finishAhead (name : String) (saved : ScopeId) : IsQuiet (finishAhead name saved) :=
  isQuiet_modify fun _ => .of_lookedUp rfl

theorem isQuiet_takeAhead (name : String) (instruction : Instruction) :
    IsQuiet (takeAhead name instruction) := by
  intro before taken after ran
  have rest := runs_get_bind.1 ran
  split at rest
  · obtain ⟨_, _, replaced, last⟩ := runs_bind.1 rest
    rw [(runs_pure.1 last).2, runs_set.1 replaced]
    exact .of_lookedUp rfl
  · rw [(runs_pure.1 rest).2]
    exact .refl _

theorem isQuiet_isUnknown (scope : ScopeId) (endpoint : String) :
    IsQuiet (isUnknown scope endpoint) :=
  isQuiet_bind isQuiet_get fun _ => isQuiet_pure _

/-- An endpoint is unknown where it cannot be resolved exactly. -/
theorem runs_isUnknown {scope : ScopeId} {endpoint : String} {unknown : Bool} :
    Runs (isUnknown scope endpoint) before unknown after ↔
      unknown = (before.resolveExact scope endpoint).isNone ∧ after = before :=
  runs_get_bind.trans runs_pure

/-- A bound of a loop is evaluated without a look at the state. -/
theorem runs_bound {counter text : String} {value : Int} :
    Runs (bound counter text) before value after ↔
      Expr.evaluate (unbracket text) = .ok value ∧ after = before := by
  unfold bound
  split
  · rename_i found evaluated
    rw [runs_pure, evaluated]
    exact and_congr_left' (by rw [Except.ok.injEq, eq_comm])
  · rename_i evaluated
    rw [evaluated]
    exact iff_of_false not_runs_throw fun ⟨same, _⟩ => by cases same

def rangeLine (counter : String) (low high : Int) (size : Nat) : String :=
  if high < low then
    s!"FOR {counter} in {low}..={high}: empty range"
  else
    let shown := (high - low + 1).bmod (Nat.pow 2 64)
    s!"FOR {counter} in {low}..={high}: {shown} iteration(s) x " ++ s!"{size} instruction(s)"

/-- An empty range is one of no rounds. -/
theorem loopRange_eq (counter first last : String) (size : Nat) :
    loopRange counter first last size = do
      let low ← bound counter first
      let high ← bound counter last
      log (rangeLine counter low high size)
      return (low, (high - low + 1).toNat) := by
  unfold loopRange rangeLine
  refine congrArg _ (funext fun low => congrArg _ (funext fun high => ?_))
  by_cases empty : high < low
  · have none : (high - low + 1).toNat = 0 := by omega
    rw [if_pos empty, if_pos empty, none]
  · rw [if_neg empty, if_neg empty]

/-- The range of a loop lies between its bounds. It does not depend on the state, which only gets a
line of the trace. -/
theorem runs_loopRange {counter first last : String} {size : Nat} {range : Int × Nat} :
    Runs (loopRange counter first last size) before range after ↔
      ∃ low high, Expr.evaluate (unbracket first) = .ok low ∧
        Expr.evaluate (unbracket last) = .ok high ∧
        range = (low, (high - low + 1).toNat) ∧
        after = before.logged (rangeLine counter low high size) := by
  rw [loopRange_eq]
  constructor
  · intro ran
    obtain ⟨low, _, lowRan, following⟩ := runs_bind.1 ran
    obtain ⟨lowIs, rfl⟩ := runs_bound.1 lowRan
    obtain ⟨high, _, highRan, logging⟩ := runs_bind.1 following
    obtain ⟨highIs, rfl⟩ := runs_bound.1 highRan
    obtain ⟨_, _, logs, returns⟩ := runs_bind.1 logging
    obtain ⟨rfl, rfl⟩ := runs_pure.1 returns
    exact ⟨low, high, lowIs, highIs, rfl, runs_log.1 logs⟩
  · rintro ⟨low, high, lowIs, highIs, rfl, rfl⟩
    refine runs_bind.2 ⟨low, before, runs_bound.2 ⟨lowIs, rfl⟩, ?_⟩
    refine runs_bind.2 ⟨high, before, runs_bound.2 ⟨highIs, rfl⟩, ?_⟩
    exact runs_bind.2 ⟨(), _, runs_log.2 rfl, runs_pure.2 ⟨rfl, rfl⟩⟩

theorem isQuiet_loopRange (counter first last : String) (size : Nat) :
    IsQuiet (loopRange counter first last size) := by
  intro before range after ran
  obtain ⟨low, high, _, _, _, rfl⟩ := runs_loopRange.1 ran
  exact before.quiet_logged _

theorem isQuiet_templateDef (name : String) (parameters : List String) (body : List Instruction) :
    IsQuiet (templateDef name parameters body) :=
  isQuiet_bind (isQuiet_modify fun _ => .of_lookedUp rfl) fun _ => isQuiet_log _

theorem isQuiet_findTemplate (name : String) : IsQuiet (findTemplate name) := by
  intro before found after ran
  have rest := runs_get_bind.1 ran
  split at rest
  · rw [(runs_pure.1 rest).2]
    exact .refl _
  split at rest
  · obtain ⟨_, _, replaced, last⟩ := runs_bind.1 rest
    rw [(runs_pure.1 last).2, runs_set.1 replaced]
    exact .of_lookedUp rfl
  · rw [(runs_pure.1 rest).2]
    exact .refl _

private theorem annotations_layers (annotations : TextTable) (network : Network) :
    (annotations.foldl (fun network entry => network.annotate entry.1 entry.2) network).layers =
        network.layers ∧
      (annotations.foldl (fun network entry => network.annotate entry.1 entry.2) network).issues =
        network.issues := by
  induction annotations generalizing network with
  | nil => exact ⟨rfl, rfl⟩
  | cons entry rest inductionHypothesis => exact inductionHypothesis _

theorem isQuiet_annotate (group : Option String) (annotations : TextTable) :
    IsQuiet (annotate group annotations) := by
  refine isQuiet_modify fun state => ?_
  cases group with
  | none =>
      obtain ⟨layers, issues⟩ := annotations_layers annotations state.network
      exact ⟨layers, issues, rfl, rfl, rfl, rfl, List.Subset.refl _, Nat.le_refl _⟩
  | some value =>
      obtain ⟨layers, issues⟩ :=
        annotations_layers annotations (state.network.annotate "group" value)
      exact ⟨layers, issues, rfl, rfl, rfl, rfl, List.Subset.refl _, Nat.le_refl _⟩

theorem isQuiet_startExpand (group : Option String) (annotations : TextTable) (size : Nat) :
    IsQuiet (startExpand group annotations size) :=
  isQuiet_bind (isQuiet_annotate group annotations) fun _ => isQuiet_log _

theorem isQuiet_prepare (name : String) (program : Instruction) :
    IsQuiet (prepare name program) :=
  isQuiet_bind (isQuiet_log _) fun _ =>
    isQuiet_bind (isQuiet_modify fun _ => .of_lookedUp rfl) fun _ =>
    isQuiet_bind isQuiet_get fun _ => isQuiet_log _

end Quiet

/-! ## Steps that never fail -/

theorem total_log (line : String) : Total (log line) :=
  total_modify _

theorem total_isUnknown (scope : ScopeId) (endpoint : String) : Total (isUnknown scope endpoint) :=
  total_get_bind fun _ => total_pure _

theorem total_startAhead (name : String) : Total (startAhead name) := by
  refine total_get_bind fun state => ?_
  split
  · exact total_pure none
  split
  · exact total_pure none
  · exact total_pure none
  · exact total_bind (total_modify _) fun _ => total_bind (total_log _) fun _ =>
      total_bind (total_modify _) fun _ => total_pure _

theorem total_takeAhead (name : String) (instruction : Instruction) :
    Total (takeAhead name instruction) := by
  refine total_get_bind fun state => ?_
  split
  · exact total_bind (total_set _) fun _ => total_pure true
  · exact total_pure false

theorem total_startExpand (group : Option String) (annotations : TextTable) (size : Nat) :
    Total (startExpand group annotations size) :=
  total_bind (total_modify _) fun _ => total_log _

theorem total_finishConnect (scope : ScopeId) (source target : String) :
    Total (finishConnect scope source target) := by
  refine total_get_bind fun state => total_bind (total_modify _) fun _ => ?_
  split
  · exact total_log _
  · exact total_bind (total_log _) fun _ => total_modify _

theorem total_prepare (name : String) (program : Instruction) : Total (prepare name program) :=
  total_bind (total_log _) fun _ => total_bind (total_modify _) fun _ =>
    total_get_bind fun _ => total_log _

/-! ## Fresh suffixes -/

/-- A suffix is drawn that was not in use before and is in use from then on. -/
structure Draws (label : String) (before : CompileState) (suffix : String)
    (after : CompileState) : Prop where
  quiet : before.Quiet after
  fresh : suffix ∉ before.usedSuffixes
  used : suffix ∈ after.usedSuffixes
  spelled : ∃ attempt word, suffix = Suffix.suffixText label attempt word

namespace Draws

variable {label suffix : String} {first before after last : CompileState}

private theorem after_quiet (draws : Draws label before suffix after) (quiet : first.Quiet before) :
    Draws label first suffix after :=
  ⟨quiet.trans draws.quiet, fun used => draws.fresh (quiet.usedSuffixes used), draws.used,
    draws.spelled⟩

private theorem before_quiet (draws : Draws label before suffix after) (quiet : after.Quiet last) :
    Draws label before suffix last :=
  ⟨draws.quiet.trans quiet, draws.fresh, quiet.usedSuffixes draws.used, draws.spelled⟩

end Draws

private theorem draws_of_drawSuffix {label suffix : String} :
    ∀ {budget attempt : Nat} {before after : CompileState},
      Runs (drawSuffix label budget attempt) before suffix after → Draws label before suffix after
  | 0, _, _, _, ran => absurd ran not_runs_throw
  | budget + 1, attempt, before, after, ran => by
      have rest := runs_get_bind.1 ran
      obtain ⟨_, drawn, replaced, choice⟩ := runs_bind.1 rest
      have same := runs_set.1 replaced
      have quiet : before.Quiet drawn := by
        rw [same]
        exact .of_lookedUp rfl
      split at choice
      · exact (draws_of_drawSuffix choice).after_quiet quiet
      · rename_i unused
        obtain ⟨_, marked, marks, last⟩ := runs_bind.1 choice
        obtain ⟨rfl, rfl⟩ := runs_pure.1 last
        rw [runs_modify.1 marks, same]
        refine ⟨⟨rfl, rfl, rfl, rfl, rfl, rfl, List.subset_cons_self _ _, Nat.le_refl _⟩, ?_,
          List.mem_cons_self, attempt, _, rfl⟩
        rwa [List.contains_iff_mem] at unused

/-- A fresh suffix was not in use before. -/
theorem draws_of_freshSuffix {label suffix : String} {before after : CompileState}
    (ran : Runs (freshSuffix label) before suffix after) : Draws label before suffix after :=
  draws_of_drawSuffix ran

def callLine (name : String) (args : List String) (suffix : String) (renamed : Nat) : String :=
  let shown := String.intercalate ", " args
  s!"MACRO_CALL {name}({shown}) suffix {suffix}: {renamed} renamed definition(s)"

/-- How a call is opened: the template that is found takes as many arguments, and its body is renamed
by the table that they and a fresh suffix give for it. -/
inductive OpensCall (name : String) (args : List String) (before : CompileState) :
    OpenTemplate → CompileState → Prop where
  | opened {declared suffix : String} {parameters : List String} {body : List Instruction}
      {searched drawn : CompileState} {renames : List (String × String)}
      (finds : Runs (findTemplate name) before (some (.templateDef declared parameters body))
        searched)
      (arity : parameters.length = args.length)
      (draws : Runs (freshSuffix name) searched suffix drawn)
      (table : hygienicRenames body (callSubstitution parameters args suffix) parameters suffix
        false = .ok renames) :
      OpensCall name args before
        ⟨parameters, body, suffix, (callSubstitution parameters args suffix).withRenames renames⟩
        (drawn.logged (callLine name args suffix renames.length))

/-- A template is opened exactly in this way. -/
theorem runs_openTemplate_iff {name : String} {args : List String} {opened : OpenTemplate}
    {before after : CompileState} :
    Runs (openTemplate name args) before opened after ↔ OpensCall name args before opened after := by
  constructor
  · intro ran
    obtain ⟨found, searched, searches, rest⟩ := runs_bind.1 ran
    split at rest
    · split at rest
      · obtain ⟨_, _, thrown, _⟩ := runs_bind.1 rest
        exact absurd thrown not_runs_throw
      · rename_i sameLength
        obtain ⟨suffix, drawn, draws, following⟩ := runs_bind.1 rest
        obtain ⟨renames, _, renamed, logging⟩ := runs_bind.1 following
        obtain ⟨table, rfl⟩ := runs_expression.1 renamed
        obtain ⟨_, _, logs, returns⟩ := runs_bind.1 logging
        obtain ⟨rfl, rfl⟩ := runs_pure.1 returns
        rw [runs_log.1 logs]
        exact .opened searches (by simpa using sameLength) draws table
    · exact absurd rest not_runs_throw
  · rintro ⟨finds, arity, draws, table⟩
    refine runs_bind.2 ⟨_, _, finds, ?_⟩
    dsimp only
    rw [if_neg (by simp [arity])]
    refine runs_bind.2 ⟨_, _, draws, runs_bind.2 ⟨_, _, runs_expression.2 ⟨table, rfl⟩, ?_⟩⟩
    exact runs_bind.2 ⟨(), _, runs_log.2 rfl, runs_pure.2 ⟨rfl, rfl⟩⟩

/-- A call draws a suffix for its template, as a lookup sees it. -/
theorem runs_openTemplate {name : String} {args : List String} {opened : OpenTemplate}
    {before after : CompileState} (ran : Runs (openTemplate name args) before opened after) :
    Draws name before opened.suffix after ∧ opened.parameters.length = args.length ∧
      ∃ renames,
        hygienicRenames opened.body (callSubstitution opened.parameters args opened.suffix)
            opened.parameters opened.suffix false = .ok renames ∧
          opened.substitution =
            (callSubstitution opened.parameters args opened.suffix).withRenames renames := by
  obtain ⟨finds, arity, draws, table⟩ := runs_openTemplate_iff.1 ran
  have drawn := (draws_of_freshSuffix draws).after_quiet (isQuiet_findTemplate _ _ _ _ finds)
  exact ⟨drawn.before_quiet (CompileState.quiet_logged _ _), arity, _, table, rfl⟩

/-- How a branch is opened: under a fresh suffix, in a scope of its own. -/
theorem runs_enterBranch {label : String} {body : List Instruction} {opened : OpenBranch}
    {before after : CompileState} (ran : Runs (enterBranch label body) before opened after) :
    ∃ suffix drawn renames, Runs (freshSuffix label) before suffix drawn ∧
      hygienicRenames body (Substitution.empty.bind suffixKey suffix) [] suffix true =
        .ok renames ∧
      opened = ⟨(Substitution.empty.bind suffixKey suffix).withRenames renames,
        drawn.scopes.size, drawn.current⟩ ∧
      after = drawn.entered := by
  obtain ⟨suffix, drawn, draws, following⟩ := runs_bind.1 ran
  obtain ⟨renames, _, renamed, rest⟩ := runs_bind.1 following
  obtain ⟨table, rfl⟩ := runs_expression.1 renamed
  have rest := runs_get_bind.1 rest
  obtain ⟨_, entered, enters, rest⟩ := runs_bind.1 rest
  obtain rfl := runs_modify.1 enters
  have last := runs_get_bind.1 rest
  obtain ⟨rfl, rfl⟩ := runs_pure.1 last
  exact ⟨suffix, _, renames, draws, table, rfl, rfl⟩

/-- Entering a branch opens a scope and adds nothing. -/
theorem leadsTo_of_enterBranch {label : String} {body : List Instruction} {opened : OpenBranch}
    {before after : CompileState} (ran : Runs (enterBranch label body) before opened after) :
    before.LeadsTo after := by
  obtain ⟨_, drawn, _, draws, _, _, rfl⟩ := runs_enterBranch ran
  have quiet := (draws_of_freshSuffix draws).quiet
  exact quiet.leadsTo.trans (CompileState.leadsTo_entered drawn)

/-! ## Branches -/

/-- What a branch is read as. -/
theorem runs_planBranch {name : Option String} {test : Instruction}
    {body alternative : List Instruction} {plan : BranchPlan} {before after : CompileState}
    (ran : Runs (planBranch name test body alternative) before plan after) :
    before.Quiet after ∧ conditionOf test = .ok (plan.text, plan.condition) ∧
      (∀ given, name = some given → plan.layerName = given) ∧
      (plan.first, plan.second) = splitBody body alternative := by
  have rest := runs_get_bind.1 ran
  obtain ⟨_, counted, counts, rest⟩ := runs_bind.1 rest
  have quiet : before.Quiet counted := by
    rw [runs_modify.1 counts]
    exact ⟨rfl, rfl, rfl, rfl, rfl, rfl, List.Subset.refl _, Nat.le_succ _⟩
  split at rest
  · exact absurd rest not_runs_throw
  · rename_i text condition tested
    obtain ⟨_, _, logged, last⟩ := runs_bind.1 rest
    obtain ⟨rfl, rfl⟩ := runs_pure.1 last
    refine ⟨quiet.trans (isQuiet_log _ _ _ _ logged), tested, ?_, rfl⟩
    rintro given rfl
    rfl

/-- A branch without a name is called by its number. -/
theorem numbered_of_planBranch {test : Instruction} {body alternative : List Instruction}
    {plan : BranchPlan} {before after : CompileState}
    (ran : Runs (planBranch none test body alternative) before plan after) :
    plan.layerName = s!"if_{before.branchCount + 1}" ∧
      before.branchCount + 1 ≤ after.branchCount := by
  have rest := runs_get_bind.1 ran
  obtain ⟨_, counted, counts, rest⟩ := runs_bind.1 rest
  split at rest
  · exact absurd rest not_runs_throw
  · obtain ⟨_, _, logged, last⟩ := runs_bind.1 rest
    obtain ⟨rfl, rfl⟩ := runs_pure.1 last
    have grown := (isQuiet_log _ _ _ _ logged).branchCount
    rw [runs_modify.1 counts] at grown
    exact ⟨rfl, grown⟩

/-- Leaving a branch changes nothing that is looked up, and returns the first output of its scope.
-/
theorem runs_leaveBranch {opened : OpenBranch} {root : Option LayerId}
    {before after : CompileState} (ran : Runs (leaveBranch opened) before root after) :
    before.Quiet after ∧ root = firstOutput after opened.scope := by
  obtain ⟨_, turned, turns, rest⟩ := runs_bind.1 ran
  have last := runs_get_bind.1 rest
  obtain ⟨rfl, rfl⟩ := runs_pure.1 last
  refine ⟨?_, rfl⟩
  rw [runs_modify.1 turns]
  exact .of_lookedUp rfl

/-- The root of a branch is an output. -/
theorem isOutput_of_firstOutput {state : CompileState} {scope : ScopeId} {root : LayerId}
    (found : firstOutput state scope = some root) :
    ∃ layer, state.network.layer? root = some layer ∧ layer.kind.isOutput = true := by
  have isOutput := List.find?_some found
  exact (Option.any_eq_true _ _).1 isOutput

/-! ## Adding layers -/

theorem runs_addLayer {name : String} {kind : LayerKind} {id : LayerId}
    {before after : CompileState} :
    Runs (addLayer name kind) before id after ↔
      id = before.network.size ∧ after = before.withLayer name kind := by
  constructor
  · intro ran
    have rest := runs_get_bind.1 ran
    obtain ⟨_, _, adds, last⟩ := runs_bind.1 rest
    obtain ⟨rfl, rfl⟩ := runs_pure.1 last
    exact ⟨rfl, runs_modify.1 adds⟩
  · rintro ⟨rfl, rfl⟩
    exact runs_get_bind.2 (runs_bind.2 ⟨(), _, runs_modify.2 rfl, runs_pure.2 ⟨rfl, rfl⟩⟩)

/-- The layer of a module is the last one that is added for it. -/
theorem runs_finishModule {name : String} {gathered : List LayerId} {before after : CompileState}
    (ran : Runs (finishModule name gathered) before () after) :
    (before.withLayer name (.composite gathered)).Quiet after := by
  obtain ⟨_, _, adds, logged⟩ := runs_bind.1 ran
  obtain ⟨rfl, rfl⟩ := runs_addLayer.1 adds
  exact isQuiet_log _ _ _ _ logged

/-- At most one edge is added for a condition: from the input that it reads. -/
theorem runs_wireCondition {ident : String} {id : LayerId} {before after : CompileState}
    (ran : Runs (wireCondition ident id) before () after) :
    after = before ∨ ∃ source isNew network,
      before.resolveExact before.current ident = some source ∧
        (∃ layer, before.network.layer? source = some layer ∧ layer.kind.isInput = true) ∧
        before.network.connect source id = .ok (isNew, network) ∧
        after = { before with network } := by
  have rest := runs_get_bind.1 ran
  split at rest
  · exact .inl (runs_pure.1 rest).2
  rename_i source resolved
  split at rest
  · rename_i isInput
    split at rest
    · rename_i isNew network connected
      exact .inr ⟨source, isNew, network, resolved, (Option.any_eq_true _ _).1 isInput, connected,
        runs_set.1 rest⟩
    · exact .inl (runs_pure.1 rest).2
  · exact .inl (runs_pure.1 rest).2

/-- What the layer that chooses between two roots adds: itself, and at most the edge from the input
that its condition reads. -/
structure Chooses (before : CompileState) (plan : BranchPlan) (kind : LayerKind)
    (after : CompileState) : Prop where
  grows : before.GrowsTo after
  sound : before.Sound → after.Sound
  pending : after.pending = before.pending
  nodes : after.network.nodes =
    before.network.nodes ++ [⟨before.network.size, plan.layerName, kind, [], []⟩]
  edges : before.Sound → ∀ {source target}, after.network.Edge source target →
    before.network.Edge source target ∨
      target = before.network.size ∧ after.network.Named plan.condition.ident source ∧
        ∃ layer, after.network.layer? source = some layer ∧ layer.kind.isInput = true

/-- The layer of a branch chooses between the roots of its sides. -/
theorem chooses_of_finishBranch {plan : BranchPlan} {thenRoot elseRoot : Option LayerId}
    {before after : CompileState}
    (accepted : before.network.Accepts (.conditional plan.text thenRoot elseRoot))
    (ran : Runs (finishBranch plan thenRoot elseRoot) before () after) :
    Chooses before plan (.conditional plan.text thenRoot elseRoot) after := by
  obtain ⟨_, _, adds, rest⟩ := runs_bind.1 ran
  obtain ⟨rfl, rfl⟩ := runs_addLayer.1 adds
  obtain ⟨_, wired, wires, logged⟩ := runs_bind.1 rest
  have quiet := isQuiet_log _ _ _ _ logged
  have added := CompileState.leadsTo_withLayer plan.layerName accepted
  have addedNodes := before.nodes_withLayer plan.layerName
    (.conditional plan.text thenRoot elseRoot)
  rcases runs_wireCondition wires with rfl | ⟨source, isNew, network, resolved, isInput, connected,
    rfl⟩
  · have leads := added.trans quiet.leadsTo
    exact {
      grows := leads.grows
      sound := leads.sound
      pending := leads.pending
      nodes := quiet.nodes.trans addedNodes
      edges := fun _ _ _ edge => .inl (leads.edges edge) }
  · have connects := Network.connects_of_connect connected
    exact {
      grows := (added.grows.trans (CompileState.grows_network connects.grows)).trans quiet.grows
      sound := fun sound => by
        have addedSound := added.sound sound
        exact quiet.leadsTo.sound (CompileState.sound_network addedSound connects.grows
          (addedSound.network.connect connected) (addedSound.readable.of_nodes connects.nodes))
      pending := quiet.pending.trans added.pending
      nodes := (quiet.nodes.trans connects.nodes).trans addedNodes
      edges := by
        intro sound first second edge
        rcases connects.noOther (quiet.leadsTo.edges edge) with old | ⟨rfl, rfl⟩
        · exact .inl (added.edges old)
        · have named := (added.sound sound).resolveExact resolved
          have grows := connects.grows.trans quiet.grows.network
          exact .inr ⟨rfl, grows.named named, grows.ofKind isInput⟩ }

/-! ## Connections -/

/-- An auto-input is added where it is wanted, and nothing is done elsewhere. -/
theorem runs_autoInput {name : String} {before after : CompileState}
    (ran : Runs (autoInput name) before () after) :
    (before.wantsInput name = true ∧
        (before.withLayer name (.input (some 1) none)).Quiet after) ∨
      (before.wantsInput name = false ∧ after = before) := by
  have rest := runs_get_bind.1 ran
  unfold CompileState.wantsInput
  split at rest
  · rename_i unwanted
    refine .inr ⟨?_, (runs_pure.1 rest).2⟩
    rcases Bool.or_eq_true_iff.1 unwanted with noAuto | known
    · rw [Bool.not_eq_true'] at noAuto
      rw [noAuto, Bool.false_and, Bool.false_and]
    · rw [← Option.not_isSome, known, Bool.not_true, Bool.and_false, Bool.false_and]
  rename_i wanted
  rw [Bool.or_eq_true, Bool.not_eq_true', not_or, Bool.not_eq_false, Bool.not_eq_true,
    Option.isSome_eq_false_iff] at wanted
  dsimp only at rest
  rw [wanted.1, wanted.2, Bool.true_and, Bool.true_and]
  split at rest
  · rename_i base
    obtain ⟨_, _, adds, logged⟩ := runs_bind.1 rest
    obtain ⟨rfl, rfl⟩ := runs_addLayer.1 adds
    exact .inl ⟨base, isQuiet_log _ _ _ _ logged⟩
  · rename_i noBase
    exact .inr ⟨Bool.eq_false_iff.2 noBase, (runs_pure.1 rest).2⟩

private theorem leadsTo_of_autoInput {name : String} {before after : CompileState}
    (ran : Runs (autoInput name) before () after) : before.LeadsTo after := by
  rcases runs_autoInput ran with ⟨_, quiet⟩ | ⟨_, rfl⟩
  · have leaf : (LayerKind.input (some 1) none).IsLeaf := ⟨rfl, rfl, rfl, trivial⟩
    have accepted := Network.accepts_of_isLeaf leaf before.network
    exact (CompileState.leadsTo_withLayer name accepted).trans quiet.leadsTo
  · exact .refl _

/-- A connection first adds the auto-input of its source. -/
theorem runs_autoInput_of_startConnect {source target : String} {scope : ScopeId}
    {before after : CompileState} (ran : Runs (startConnect source target) before scope after) :
    Runs (autoInput source) before () after ∧ scope = before.current := by
  unfold startConnect at ran
  dsimp only at ran
  split at ran
  · obtain ⟨_, _, thrown, _⟩ := runs_bind.1 ran
    exact absurd thrown not_runs_throw
  split at ran
  · obtain ⟨_, _, thrown, _⟩ := runs_bind.1 ran
    exact absurd thrown not_runs_throw
  obtain ⟨_, _, adds, last⟩ := runs_bind.1 (runs_get_bind.1 ran)
  obtain ⟨rfl, rfl⟩ := runs_pure.1 last
  exact ⟨adds, rfl⟩

/-- The endpoints of a connection are looked up in the scope where it stands. -/
theorem runs_startConnect {source target : String} {scope : ScopeId} {before after : CompileState}
    (ran : Runs (startConnect source target) before scope after) :
    before.LeadsTo after ∧ scope = before.current := by
  obtain ⟨adds, isScope⟩ := runs_autoInput_of_startConnect ran
  exact ⟨leadsTo_of_autoInput adds, isScope⟩

def AddsNoInput (source : String) (before : CompileState) : Prop :=
  ∀ after, Runs (autoInput source) before () after ↔ after = before

/-- A name that is no auto-input adds no input. -/
theorem addsNoInput_of_noAuto {source : String} (noAuto : Name.isAutoInput source = false)
    (before : CompileState) : AddsNoInput source before := by
  intro after
  unfold autoInput
  rw [runs_get_bind, noAuto]
  exact runs_pure.trans (and_iff_right rfl)

theorem addsNoInput_of_known {source : String} {before : CompileState}
    (known : (before.resolveExact before.current source).isSome = true) :
    AddsNoInput source before := by
  intro after
  unfold autoInput
  rw [runs_get_bind, known, Bool.or_true]
  exact runs_pure.trans (and_iff_right rfl)

theorem addsNoInput_of_noBase {source : String} {before : CompileState}
    (noBase : before.resolveExact before.current Name.autoInputBase = none) :
    AddsNoInput source before := by
  intro after
  unfold autoInput
  rw [runs_get_bind]
  split
  · exact runs_pure.trans (and_iff_right rfl)
  · dsimp only
    rw [noBase]
    exact runs_pure.trans (and_iff_right rfl)

/-- A connection for which no input is added only has its endpoints checked. -/
theorem runs_startConnect_iff {source target : String} {scope : ScopeId}
    {before after : CompileState} (idle : AddsNoInput source before) :
    Runs (startConnect source target) before scope after ↔
      (hasBrackets source = false ∧ hasBrackets target = false) ∧
        scope = before.current ∧ after = before := by
  unfold startConnect
  dsimp only
  constructor
  · intro ran
    split at ran
    · obtain ⟨_, _, thrown, _⟩ := runs_bind.1 ran
      exact absurd thrown not_runs_throw
    rename_i sourcePlain
    split at ran
    · obtain ⟨_, _, thrown, _⟩ := runs_bind.1 ran
      exact absurd thrown not_runs_throw
    rename_i targetPlain
    obtain ⟨_, _, adds, last⟩ := runs_bind.1 (runs_get_bind.1 ran)
    obtain ⟨rfl, rfl⟩ := runs_pure.1 last
    exact ⟨⟨Bool.eq_false_iff.2 sourcePlain, Bool.eq_false_iff.2 targetPlain⟩, rfl,
      (idle _).1 adds⟩
  · rintro ⟨⟨sourcePlain, targetPlain⟩, rfl, rfl⟩
    rw [sourcePlain, targetPlain]
    exact runs_get_bind.2 (runs_bind.2 ⟨(), _, (idle _).2 rfl, runs_pure.2 ⟨rfl, rfl⟩⟩)

/-- What a connection leaves behind: itself, to be wired at the end, and an error where an endpoint
could not be resolved. -/
structure Settles (scope : ScopeId) (source target : String) (before after : CompileState) :
    Prop where
  grows : before.GrowsTo after
  sound : before.Sound → after.Sound
  recorded : ∃ flagged,
    after.pending.toList = before.pending.toList ++ [⟨source, target, scope, flagged⟩]
  edges : ∀ {first second}, after.network.Edge first second → before.network.Edge first second
  settled : ((before.resolve scope source).isSome = true ∧
      (before.resolve scope target).isSome = true) ∨
    ∃ missing, missing ≠ [] ∧ missing.Sublist [source, target] ∧
      ⟨.error, unresolvedMessage source target missing⟩ ∈ after.network.issues

private theorem isSome_of_filter_eq_nil {scope : ScopeId} {state : CompileState}
    {endpoints : List String}
    (none : (endpoints.filter fun endpoint => (state.resolve scope endpoint).isNone) = []) :
    ∀ endpoint ∈ endpoints, (state.resolve scope endpoint).isSome = true := by
  intro endpoint member
  have isSome := List.filter_eq_nil_iff.1 none endpoint member
  rwa [Option.isNone_iff_eq_none, ← ne_eq, Option.ne_none_iff_isSome] at isSome

private theorem grows_recorded (state : CompileState) (connection : PendingConnect) :
    state.GrowsTo { state with pending := state.pending.push connection } :=
  ⟨.refl _, fun {_ scope} found => ⟨scope, found, rfl, List.suffix_refl _⟩, List.prefix_refl _,
    by simp, List.Subset.refl _, Nat.le_refl _⟩

/-- A connection is recorded, with an issue where an endpoint cannot be resolved. -/
theorem settles_of_finishConnect {scope : ScopeId} {source target : String}
    {before after : CompileState}
    (ran : Runs (finishConnect scope source target) before () after) :
    Settles scope source target before after := by
  have rest := runs_get_bind.1 ran
  obtain ⟨_, recorded, records, outcome⟩ := runs_bind.1 rest
  have same := runs_modify.1 records
  have grows : before.GrowsTo recorded := by
    rw [same]
    exact grows_recorded _ _
  have sound : before.Sound → recorded.Sound := by
    intro sound
    rw [same]
    exact { sound with }
  split at outcome
  · rename_i nothing
    have found := isSome_of_filter_eq_nil (List.isEmpty_iff.1 nothing)
    have quiet := isQuiet_log _ _ _ _ outcome
    exact {
      grows := grows.trans quiet.grows
      sound := fun earlier => quiet.leadsTo.sound (sound earlier)
      recorded := ⟨_, by rw [quiet.pending, same, Array.toList_push]⟩
      edges := fun edge => by
        have kept := quiet.leadsTo.edges edge
        rwa [same] at kept
      settled := .inl ⟨found source (by simp), found target (by simp)⟩ }
  · rename_i something
    obtain ⟨_, logged, logs, issued⟩ := runs_bind.1 outcome
    have quiet := isQuiet_log _ _ _ _ logs
    have last := runs_modify.1 issued
    have issuedGrows : logged.GrowsTo after := by
      rw [last]
      exact CompileState.grows_network (Network.growsTo_addIssue _ _)
    exact {
      grows := (grows.trans quiet.grows).trans issuedGrows
      sound := by
        intro earlier
        have loggedSound := quiet.leadsTo.sound (sound earlier)
        rw [last]
        exact CompileState.sound_network loggedSound (Network.growsTo_addIssue _ _)
          (loggedSound.network.of_layers rfl) (loggedSound.readable.of_nodes rfl)
      recorded := ⟨_, by rw [last, quiet.pending, same, Array.toList_push]⟩
      edges := fun edge => by
        rw [last] at edge
        have kept := quiet.leadsTo.edges ((Network.edge_iff_of_layers rfl).1 edge)
        rwa [same] at kept
      settled := by
        refine .inr ⟨_, fun empty => something (List.isEmpty_iff.2 empty), List.filter_sublist, ?_⟩
        rw [last]
        exact List.mem_append_right _ (List.mem_singleton_self _) }

end Compile

end NetBlueprint
