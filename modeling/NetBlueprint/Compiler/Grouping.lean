import NetBlueprint.Compiler.State

/-!
Contract: branches and modules.

Both branches are always built, each in a scope of its own and under a fresh suffix that spares
its outputs; the first output of a branch is its root, and a conditional layer chooses between the
two roots. A module compiles its body in the enclosing scope and groups the layers of the body, in
body order, under a layer of its own.
-/

namespace NetBlueprint.Compile

/-- The instructions of the first branch and of the second. Whatever the body marks as otherwise
follows the second branch as given. -/
def splitBody (body alternative : List Instruction) : List Instruction × List Instruction :=
  (body.filter fun
      | .otherwise _ => false
      | _ => true,
    alternative ++ body.flatMap fun
      | .otherwise marked => marked
      | _ => [])

def firstOutput (state : CompileState) (scope : ScopeId) : Option LayerId :=
  (state.scopeLayers scope).find? fun id =>
    (state.network.layer? id).any fun layer => layer.kind.isOutput

/-- A branch that is being compiled: how its body is filled in, its own scope, and the scope around
it. -/
structure OpenBranch where
  substitution : Substitution
  scope : ScopeId
  outer : ScopeId

/-- Opens a scope for a branch and puts a fresh suffix on what its body defines. -/
def enterBranch (label : String) (body : List Instruction) : CompileM OpenBranch := do
  let suffix ← freshSuffix label
  let substitution := Substitution.empty.bind suffixKey suffix
  let renames ← expression (hygienicRenames body substitution [] suffix true)
  let outer := (← get).current
  modify CompileState.entered
  return ⟨substitution.withRenames renames, (← get).current, outer⟩

/-- Comes back from a branch and returns its root. -/
def leaveBranch (opened : OpenBranch) : CompileM (Option LayerId) := do
  modify fun state => { state with current := opened.outer }
  return firstOutput (← get) opened.scope

def conditionOf : Instruction → Except CompileFault (String × Condition)
  | .condition text =>
    match Condition.parseChars text.toList with
    | .ok parsed => .ok (text, parsed)
    | .error fault => .error (.unsupportedCondition text fault.reason)
  | other =>
    .error (.unsupportedCondition other.opcode.label
      "condition must be a CONDITION instruction")

def describeRoot : Option LayerId → String
  | some id => s!"#{id}"
  | none => "none"

/-- Connects the input that a condition reads to the layer that chooses. -/
def wireCondition (ident : String) (id : LayerId) : CompileM Unit := do
  let state ← get
  match state.resolveExact state.current ident with
  | none => return ()
  | some source =>
    if (state.network.layer? source).any fun layer => layer.kind.isInput then
      match state.network.connect source id with
      | .ok (_, network) => set { state with network }
      | .error _ => return ()

/-- A branch as it is read: the name and the condition of the layer that chooses, and the
instructions on either side. -/
structure BranchPlan where
  layerName : String
  text : String
  condition : Condition
  first : List Instruction
  second : List Instruction

def planBranch (name : Option String) (test : Instruction) (body alternative : List Instruction) :
    CompileM BranchPlan := do
  let ordinal := (← get).branchCount + 1
  modify fun state => { state with branchCount := ordinal }
  let layerName := name.getD s!"if_{ordinal}"
  match conditionOf test with
  | .error fault => throw fault
  | .ok (text, condition) =>
    let (first, second) := splitBody body alternative
    log (s!"IF '{layerName}' ({condition.render}): then {first.length} / "
      ++ s!"else {second.length} instruction(s)")
    return ⟨layerName, text, condition, first, second⟩

def finishBranch (plan : BranchPlan) (thenRoot elseRoot : Option LayerId) : CompileM Unit := do
  let id ← addLayer plan.layerName (.conditional plan.text thenRoot elseRoot)
  wireCondition plan.condition.ident id
  log (s!"IF '{plan.layerName}' -> #{id} (then {describeRoot thenRoot}, "
    ++ s!"else {describeRoot elseRoot})")

/-- The layer that a layer or module of a body had become before the module was entered. -/
def earlierLayer (state : CompileState) (start : Nat) (child : Instruction) : List LayerId :=
  let name? := match child with
    | .layer spec => some spec.name
    | .moduleDef name _ _ _ => some name
    | _ => none
  ((name?.bind (state.resolveExact state.current)).filter fun id => id < start).toList

/-- The layers that a child of a module accounts for: those it added, or the one it had become
earlier. -/
def producedBy (state : CompileState) (start before : Nat) (child : Instruction) : List LayerId :=
  if state.network.size = before then earlierLayer state start child
  else (List.range (state.network.size - before)).map (before + ·)

/-- Adds the layers that a child just compiled accounts for to the children gathered so far;
`before` is the number of layers before the child, `start` that before the first child. -/
def gather (start before : Nat) (gathered : List LayerId) (child : Instruction) :
    CompileM (List LayerId) := do
  let produced := producedBy (← get) start before child
  return gathered ++ produced.filter fun id => !gathered.contains id

def finishModule (name : String) (gathered : List LayerId) : CompileM Unit := do
  let id ← addLayer name (.composite gathered)
  log s!"MODULE_DEF '{name}' -> #{id} with {gathered.length} child layer(s)"

section Inner

variable {m : Type → Type} [Monad m] [MonadLiftT CompileM m]

/-- Compiles one branch in a scope of its own and returns its root. -/
def branchRoot (compile : Instruction → m Unit) (label : String) (body : List Instruction) :
    m (Option LayerId) := do
  if body.isEmpty then return none
  let opened ← enterBranch label body
  filled compile opened.substitution body
  leaveBranch opened

def branch (compile : Instruction → m Unit) (name : Option String) (test : Instruction)
    (body alternative : List Instruction) : m Unit := do
  let plan ← planBranch name test body alternative
  let thenRoot ← branchRoot compile "then" plan.first
  let elseRoot ← branchRoot compile "else" plan.second
  finishBranch plan thenRoot elseRoot

/-- Compiles the children of a module; `start` is the number of layers before the first of them,
and the children gathered so far stand in front. -/
def children (compile : Instruction → m Unit) (start : Nat) :
    List LayerId → List Instruction → m (List LayerId)
  | gathered, [] => return gathered
  | gathered, child :: rest => do
    let before ← layerCount
    compile child
    let gathered ← gather start before gathered child
    children compile start gathered rest

def moduleDef (compile : Instruction → m Unit) (name : String) (inputs outputs : List String)
    (body : List Instruction) : m Unit := do
  if ← takeAhead name (.moduleDef name inputs outputs body) then
    log s!"MODULE_DEF '{name}' already compiled lazily, skipping"
  else
    log s!"MODULE_DEF '{name}': {body.length} instruction(s)"
    let gathered ← children compile (← layerCount) [] body
    finishModule name gathered

end Inner

end NetBlueprint.Compile
