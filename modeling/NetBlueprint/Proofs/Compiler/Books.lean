import NetBlueprint.Proofs.Compiler.Trail

/-!
Contract: the books on forward references.

A state keeps three books: what is registered under a name, which names were compiled ahead of
their declaration and wait for it, and which are being compiled ahead. Only turning to a name,
coming back from it and taking it off the list write to them; every other step leaves them as they
are. Most steps also stay in the scope in which they start.

Owns: the books, the steps that keep them and stay in their scope, and what the three others do.
-/

namespace NetBlueprint

/-- What a state knows about forward references. -/
structure Books where
  registry : List (String × Instruction)
  compiledAhead : List String
  aheadInProgress : List String

def CompileState.books (state : CompileState) : Books :=
  ⟨state.registry, state.compiledAhead, state.aheadInProgress⟩

/-- Decides whether an instruction that is met in its order waits to be passed over: what is
registered under its name was compiled ahead and agrees with it. -/
def CompileState.waits (state : CompileState) (name : String) (instruction : Instruction) : Bool :=
  state.compiledAhead.contains name
    && (state.registry.lookup name).any fun found => found.same instruction

namespace Network

/-- Connecting layers leaves the templates as they are. -/
theorem templates_of_connect {network after : Network} {source target : LayerId} {isNew : Bool}
    (connected : network.connect source target = .ok (isNew, after)) :
    after.templates = network.templates := by
  unfold connect at connected
  repeat' split at connected
  all_goals cases connected
  all_goals rfl

/-- After a template is registered, every other name stands for what it stood for. -/
theorem template?_registerTemplate {network : Network} {name key : String}
    {definition found : Instruction}
    (isTemplate : (network.registerTemplate name definition).template? key = some found) :
    key = name ∧ found = definition ∨ network.template? key = some found := by
  rw [template?, registerTemplate] at isTemplate
  by_cases same : key = name
  · rw [same, Text.lookup_insertSorted_self] at isTemplate
    exact .inl ⟨same, (Option.some.inj isTemplate).symm⟩
  · rw [Text.lookup_insertSorted_of_ne _ same] at isTemplate
    exact .inr isTemplate

/-- Annotations leave the templates as they are. -/
theorem templates_annotated (annotations : TextTable) (network : Network) :
    (annotations.foldl (fun network entry => network.annotate entry.1 entry.2) network).templates =
      network.templates := by
  induction annotations generalizing network with
  | nil => rfl
  | cons entry rest inductionHypothesis => exact inductionHypothesis _

end Network

namespace Compile

section Keeping

variable {Result Next Field : Type} {field : CompileState → Field}

/-- Wherever an action succeeds, a part of the state is as before. -/
def Keeps (field : CompileState → Field) (action : CompileM Result) : Prop :=
  ∀ before result after, Runs action before result after → field after = field before

theorem keeps_pure (value : Result) : Keeps field (pure value) := by
  intro before result after ran
  rw [(runs_pure.1 ran).2]

theorem keeps_throw (fault : CompileFault) : Keeps field (throw fault : CompileM Result) := by
  intro before result after ran
  exact absurd ran not_runs_throw

/-- Nothing follows a fault. -/
theorem keeps_throw_bind (fault : CompileFault) (next : Result → CompileM Next) :
    Keeps field (throw fault >>= next) := by
  intro before result after ran
  obtain ⟨_, _, thrown, _⟩ := runs_bind.1 ran
  exact absurd thrown not_runs_throw

theorem keeps_get : Keeps field get := by
  intro before result after ran
  rw [(runs_get.1 ran).2]

theorem keeps_modify {change : CompileState → CompileState}
    (same : ∀ state : CompileState, field (change state) = field state) :
    Keeps field (modify change) := by
  intro before result after ran
  rw [runs_modify.1 ran, same]

theorem keeps_bind {action : CompileM Result} {next : Result → CompileM Next}
    (first : Keeps field action) (second : ∀ value, Keeps field (next value)) :
    Keeps field (action >>= next) := by
  intro before result after ran
  obtain ⟨middle, between, firstRan, secondRan⟩ := runs_bind.1 ran
  exact (second middle _ _ _ secondRan).trans (first _ _ _ firstRan)

/-- An action that depends on the state may be judged state by state. -/
theorem keeps_get_bind {next : CompileState → CompileM Next}
    (each : ∀ state, Keeps field (next state)) : Keeps field (get >>= next) :=
  keeps_bind keeps_get each

end Keeping

/-! ## Steps that neither write to the books nor move -/

/-- A part of the state that depends on the books and on the scope in which the state stands. -/
def Fixed {Field : Type} (field : CompileState → Field) : Prop :=
  ∀ {before after : CompileState}, after.books = before.books → after.current = before.current →
    field after = field before

/-- A part of the state that depends on the books, on the scope in which the state stands, and on
the templates. -/
def Steady {Field : Type} (field : CompileState → Field) : Prop :=
  ∀ {before after : CompileState}, after.books = before.books → after.current = before.current →
    after.network.templates = before.network.templates → field after = field before

theorem Fixed.steady {Field : Type} {field : CompileState → Field} (fixed : Fixed field) :
    Steady field :=
  fun books current _ => fixed books current

theorem fixed_books : Fixed CompileState.books := fun books _ => books

theorem fixed_current : Fixed CompileState.current := fun _ current => current

theorem steady_books : Steady CompileState.books := fixed_books.steady

theorem steady_current : Steady CompileState.current := fixed_current.steady

theorem steady_templates : Steady fun state => state.network.templates :=
  fun _ _ templates => templates

section Steps

theorem keeps_expression {Field Result : Type} {field : CompileState → Field}
    (outcome : Except ExprError Result) : Keeps field (expression outcome) := by
  cases outcome with
  | ok value => exact keeps_pure value
  | error fault => exact keeps_throw _

theorem books_withLayer (state : CompileState) (name : String) (kind : LayerKind) :
    (state.withLayer name kind).books = state.books := rfl

variable {Field : Type} {field : CompileState → Field}

theorem keeps_isUnknown (scope : ScopeId) (endpoint : String) :
    Keeps field (isUnknown scope endpoint) :=
  keeps_get_bind fun _ => keeps_pure _

variable (steady : Steady field)

include steady

theorem keeps_log (line : String) : Keeps field (log line) :=
  keeps_modify fun _ => steady rfl rfl rfl

theorem keeps_addLayer (name : String) (kind : LayerKind) : Keeps field (addLayer name kind) :=
  keeps_get_bind fun _ =>
    keeps_bind (keeps_modify fun _ => steady rfl rfl rfl) fun _ => keeps_pure _

theorem keeps_newLayer (spec : LayerSpec) : Keeps field (newLayer spec) := by
  unfold newLayer
  split
  · exact keeps_throw _
  · exact keeps_bind (keeps_addLayer steady _ _) fun _ => keeps_log steady _

theorem keeps_finishModule (name : String) (gathered : List LayerId) :
    Keeps field (finishModule name gathered) :=
  keeps_bind (keeps_addLayer steady _ _) fun _ => keeps_log steady _

theorem keeps_loopRange (counter first last : String) (size : Nat) :
    Keeps field (loopRange counter first last size) := by
  intro before range after ran
  obtain ⟨low, high, _, _, _, rfl⟩ := runs_loopRange.1 ran
  exact steady rfl rfl rfl

theorem keeps_startExpand (group : Option String) (annotations : TextTable) (size : Nat) :
    Keeps field (startExpand group annotations size) := by
  refine keeps_bind (keeps_modify fun _ => steady rfl rfl ?_) fun _ => keeps_log steady _
  cases group <;> exact Network.templates_annotated annotations _

private theorem keeps_autoInput (name : String) : Keeps field (autoInput name) := by
  refine keeps_get_bind fun state => ?_
  split
  · exact keeps_pure _
  · dsimp only
    split
    · exact keeps_bind (keeps_addLayer steady _ _) fun _ => keeps_log steady _
    · exact keeps_pure _

theorem keeps_startConnect (source target : String) :
    Keeps field (startConnect source target) := by
  unfold startConnect
  dsimp only
  split
  · exact keeps_throw_bind _ _
  split
  · exact keeps_throw_bind _ _
  · exact keeps_get_bind fun state =>
      keeps_bind (keeps_autoInput steady source) fun _ => keeps_pure _

theorem keeps_finishConnect (scope : ScopeId) (source target : String) :
    Keeps field (finishConnect scope source target) := by
  refine keeps_get_bind fun state =>
    keeps_bind (keeps_modify fun _ => steady rfl rfl rfl) fun _ => ?_
  split
  · exact keeps_log steady _
  · exact keeps_bind (keeps_log steady _) fun _ => keeps_modify fun _ => steady rfl rfl rfl

theorem keeps_freshSuffix (label : String) : Keeps field (freshSuffix label) := by
  have keeps_drawSuffix : ∀ budget attempt, Keeps field (drawSuffix label budget attempt) := by
    intro budget
    induction budget with
    | zero => exact fun _ => keeps_throw _
    | succ budget inductionHypothesis =>
        intro attempt before suffix after ran
        have rest := runs_get_bind.1 ran
        obtain ⟨_, drawn, replaced, choice⟩ := runs_bind.1 rest
        have same : field drawn = field before := by
          rw [runs_set.1 replaced]
          exact steady rfl rfl rfl
        rw [← same]
        split at choice
        · exact inductionHypothesis _ _ _ _ choice
        · obtain ⟨_, _, marks, last⟩ := runs_bind.1 choice
          rw [(runs_pure.1 last).2, runs_modify.1 marks]
          exact steady rfl rfl rfl
  exact keeps_drawSuffix _ _

theorem keeps_planBranch (name : Option String) (test : Instruction)
    (body alternative : List Instruction) :
    Keeps field (planBranch name test body alternative) := by
  refine keeps_get_bind fun _ =>
    keeps_bind (keeps_modify fun _ => steady rfl rfl rfl) fun _ => ?_
  split
  · exact keeps_throw _
  · exact keeps_bind (keeps_log steady _) fun _ => keeps_pure _

theorem keeps_wireCondition (ident : String) (id : LayerId) :
    Keeps field (wireCondition ident id) := by
  intro before _ after ran
  rcases runs_wireCondition ran with rfl | ⟨_, _, _, _, _, connected, rfl⟩
  · rfl
  · exact steady rfl rfl (Network.templates_of_connect connected)

theorem keeps_finishBranch (plan : BranchPlan) (thenRoot elseRoot : Option LayerId) :
    Keeps field (finishBranch plan thenRoot elseRoot) :=
  keeps_bind (keeps_addLayer steady _ _) fun _ =>
    keeps_bind (keeps_wireCondition steady _ _) fun _ => keeps_log steady _

end Steps

section TemplateSteps

variable {Field : Type} {field : CompileState → Field} (fixed : Fixed field)

include fixed

theorem keeps_templateDef (name : String) (parameters : List String) (body : List Instruction) :
    Keeps field (templateDef name parameters body) :=
  keeps_bind (keeps_modify fun _ => fixed rfl rfl) fun _ => keeps_log fixed.steady _

private theorem keeps_findTemplate (name : String) : Keeps field (findTemplate name) := by
  intro before found after ran
  have rest := runs_get_bind.1 ran
  split at rest
  · rw [(runs_pure.1 rest).2]
  split at rest
  · obtain ⟨_, _, replaced, last⟩ := runs_bind.1 rest
    rw [(runs_pure.1 last).2, runs_set.1 replaced]
    exact fixed rfl rfl
  · rw [(runs_pure.1 rest).2]

theorem keeps_openTemplate (name : String) (args : List String) :
    Keeps field (openTemplate name args) := by
  intro before opened after ran
  obtain ⟨finds, _, draws, _⟩ := runs_openTemplate_iff.1 ran
  rw [← keeps_findTemplate fixed name _ _ _ finds, ← keeps_freshSuffix fixed.steady name _ _ _ draws]
  exact fixed rfl rfl

end TemplateSteps

section BranchSteps

variable {Field : Type} {field : CompileState → Field}

theorem keeps_enterBranch (steady : Steady field)
    (enters : ∀ state : CompileState, field state.entered = field state) (label : String)
    (body : List Instruction) : Keeps field (enterBranch label body) :=
  keeps_bind (keeps_freshSuffix steady label) fun _ =>
    keeps_bind (keeps_expression _) fun _ => keeps_get_bind fun _ =>
    keeps_bind (keeps_modify enters) fun _ => keeps_get_bind fun _ => keeps_pure _

theorem keeps_leaveBranch
    (moves : ∀ (state : CompileState) (scope : ScopeId),
      field { state with current := scope } = field state) (opened : OpenBranch) :
    Keeps field (leaveBranch opened) :=
  keeps_bind (keeps_modify fun _ => moves _ _) fun _ => keeps_get_bind fun _ => keeps_pure _

end BranchSteps

/-- A branch is entered and left with the same books. -/
theorem keepsBooks_enterBranch (label : String) (body : List Instruction) :
    Keeps CompileState.books (enterBranch label body) :=
  keeps_enterBranch steady_books (fun _ => rfl) label body

theorem keepsBooks_leaveBranch (opened : OpenBranch) :
    Keeps CompileState.books (leaveBranch opened) :=
  keeps_leaveBranch (fun _ _ => rfl) opened

/-! ## The steps that write to the books -/

variable {name : String} {before after : CompileState}

/-- A name that is turned to was registered, and neither compiled nor being compiled ahead. -/
structure Turns (name : String) (instruction : Instruction) (before after : CompileState) :
    Prop where
  registered : before.registry.lookup name = some instruction
  noTemplate : ∀ declared parameters body, instruction ≠ .templateDef declared parameters body
  notCompiled : name ∉ before.compiledAhead
  notInProgress : name ∉ before.aheadInProgress
  books : after.books = ⟨before.registry, before.compiledAhead, name :: before.aheadInProgress⟩
  current : after.current = 0

/-- Turning to a name changes nothing, or the name is turned to. -/
theorem runs_startAhead {turned : Option (Instruction × ScopeId)}
    (ran : Runs (startAhead name) before turned after) :
    (turned = none ∧ after = before) ∨
      ∃ instruction, turned = some (instruction, before.current) ∧
        Turns name instruction before after := by
  have rest := runs_get_bind.1 ran
  split at rest
  · exact .inl (runs_pure.1 rest)
  rename_i free
  rw [Bool.or_eq_true, not_or, List.contains_iff_mem, List.contains_iff_mem] at free
  split at rest
  · exact .inl (runs_pure.1 rest)
  · exact .inl (runs_pure.1 rest)
  · rename_i instruction notTemplate registered
    obtain ⟨_, marked, marks, rest⟩ := runs_bind.1 rest
    obtain ⟨_, logged, logs, rest⟩ := runs_bind.1 rest
    obtain ⟨_, moved, moves, last⟩ := runs_bind.1 rest
    obtain ⟨rfl, rfl⟩ := runs_pure.1 last
    have books : after.books = marked.books := by
      have logged := keeps_log steady_books _ _ _ _ logs
      rw [runs_modify.1 moves]
      exact logged
    refine .inr ⟨instruction, rfl, registered, ?_, free.1, free.2, ?_, ?_⟩
    · intro declared parameters body same
      exact notTemplate declared parameters body same
    · rw [books, runs_modify.1 marks]
      rfl
    · rw [runs_modify.1 moves]

/-- Coming back from a name puts it on the books as compiled ahead. -/
theorem runs_finishAhead {saved : ScopeId} (ran : Runs (finishAhead name saved) before () after) :
    after.books =
      ⟨before.registry, name :: before.compiledAhead, before.aheadInProgress.erase name⟩ ∧
      after.current = saved := by
  rw [runs_modify.1 ran]
  exact ⟨rfl, rfl⟩

/-- What comes of compiling a name ahead: nothing, or one visit to what the name was turned to. -/
inductive AheadOutcome (name : String) (before : CompileState) :
    List Visit → CompileState → Prop where
  | skipped : AheadOutcome name before [] before
  | turned {visit : Visit} {after : CompileState}
      (started : Runs (startAhead name) before (some (visit.instruction, before.current))
        visit.before)
      (turns : Turns name visit.instruction before visit.before)
      (finished : Runs (finishAhead name before.current) visit.after () after) :
      AheadOutcome name before [visit] after

/-- Compiling a name ahead has one of two outcomes. -/
theorem Ahead.outcome {inner : List Visit} (ahead : Ahead name before inner after) :
    AheadOutcome name before inner after := by
  cases ahead with
  | skipped started =>
      rcases runs_startAhead started with ⟨_, rfl⟩ | ⟨_, isSome, _⟩
      · exact .skipped
      · cases isSome
  | turned started finished =>
      rcases runs_startAhead started with ⟨isNone, _⟩ | ⟨_, isSome, turns⟩
      · cases isNone
      · cases isSome
        exact .turned started turns finished

/-- An endpoint is resolved as it stands and nothing is done, or it is compiled ahead. -/
theorem Ensured.cases {scope : ScopeId} {endpoint : String} {inner : List Visit}
    (ensured : Ensured scope endpoint before inner after) :
    ((before.resolveExact scope endpoint).isSome = true ∧ inner = [] ∧ after = before) ∨
      (before.resolveExact scope endpoint = none ∧ Ahead endpoint before inner after) := by
  cases ensured with
  | known asked =>
      obtain ⟨isNone, rfl⟩ := runs_isUnknown.1 asked
      exact .inl ⟨Option.isNone_eq_false_iff.1 isNone.symm, rfl, rfl⟩
  | unknown asked ahead =>
      obtain ⟨isNone, rfl⟩ := runs_isUnknown.1 asked
      exact .inr ⟨Option.isNone_iff_eq_none.1 isNone.symm, ahead⟩

/-- An instruction that was compiled ahead under its name is taken off the books. -/
structure Takes (name : String) (instruction : Instruction) (before after : CompileState) :
    Prop where
  compiled : name ∈ before.compiledAhead
  registered : ∃ found, before.registry.lookup name = some found ∧ found.same instruction = true
  books : after.books =
    ⟨before.registry.filter fun entry => entry.1 != name, before.compiledAhead.erase name,
      before.aheadInProgress⟩

/-- An instruction is taken off the books exactly if it was compiled ahead. -/
theorem runs_takeAhead {instruction : Instruction} {taken : Bool}
    (ran : Runs (takeAhead name instruction) before taken after) :
    (taken = true ∧ Takes name instruction before after) ∨
      (taken = false ∧ after = before ∧
        ∀ found, before.registry.lookup name = some found → found.same instruction = true →
          name ∉ before.compiledAhead) := by
  have rest := runs_get_bind.1 ran
  split at rest
  · rename_i isTaken
    rw [Bool.and_eq_true, List.contains_iff_mem, Option.any_eq_true] at isTaken
    obtain ⟨_, _, replaced, last⟩ := runs_bind.1 rest
    obtain ⟨rfl, rfl⟩ := runs_pure.1 last
    refine .inl ⟨rfl, isTaken.1, isTaken.2, ?_⟩
    rw [runs_set.1 replaced]
    rfl
  · rename_i notTaken
    obtain ⟨rfl, rfl⟩ := runs_pure.1 rest
    refine .inr ⟨rfl, rfl, fun found registered same compiled => notTaken ?_⟩
    rw [Bool.and_eq_true, List.contains_iff_mem, Option.any_eq_true]
    exact ⟨compiled, found, registered, same⟩

/-- An instruction is taken off the books exactly where it waits for that. -/
theorem taken_eq_waits {instruction : Instruction} {taken : Bool}
    (ran : Runs (takeAhead name instruction) before taken after) :
    taken = before.waits name instruction := by
  have rest := runs_get_bind.1 ran
  unfold CompileState.waits
  split at rest
  · rename_i isTaken
    obtain ⟨_, _, _, last⟩ := runs_bind.1 rest
    rw [(runs_pure.1 last).1, isTaken]
  · rename_i notTaken
    rw [(runs_pure.1 rest).1, Bool.eq_false_iff.2 notTaken]

/-- Where nothing was compiled ahead nothing is taken off the books. -/
theorem runs_takeAhead_of_nothing {instruction : Instruction} {taken : Bool}
    (nothing : before.compiledAhead = []) :
    Runs (takeAhead name instruction) before taken after ↔ taken = false ∧ after = before := by
  have forward {taken : Bool} {after : CompileState}
      (ran : Runs (takeAhead name instruction) before taken after) :
      taken = false ∧ after = before := by
    rcases runs_takeAhead ran with ⟨_, takes⟩ | ⟨rfl, rfl, _⟩
    · have compiled := takes.compiled
      rw [nothing] at compiled
      cases compiled
    · exact ⟨rfl, rfl⟩
  refine ⟨forward, ?_⟩
  rintro ⟨rfl, same⟩
  obtain ⟨_, _, ran⟩ := total_takeAhead name instruction before
  obtain ⟨rfl, rfl⟩ := forward ran
  rwa [same]

/-- Only templates are registered under a name, so it is not turned to. -/
theorem runs_startAhead_of_templates
    (templates : ∀ {instruction}, before.registry.lookup name = some instruction →
      ∃ declared parameters body, instruction = .templateDef declared parameters body) :
    Runs (startAhead name) before none before := by
  obtain ⟨_, _, ran⟩ := total_startAhead name before
  rcases runs_startAhead ran with ⟨rfl, rfl⟩ | ⟨instruction, _, turns⟩
  · exact ran
  · obtain ⟨declared, parameters, body, same⟩ := templates turns.registered
    exact absurd same (turns.noTemplate declared parameters body)

/-- Before the first instruction the books hold the registry of the program. -/
theorem books_of_prepare {program : Instruction}
    (ran : Runs (prepare name program) before () after) :
    after.books = { before.books with registry := program.prescan [] } := by
  obtain ⟨_, logged, logs, rest⟩ := runs_bind.1 ran
  obtain ⟨_, filled, fills, rest⟩ := runs_bind.1 rest
  have rest := runs_get_bind.1 rest
  have last := keeps_log steady_books _ _ _ _ rest
  have first := keeps_log steady_books _ _ _ _ logs
  rw [last, runs_modify.1 fills, ← first]
  rfl

end Compile

end NetBlueprint
