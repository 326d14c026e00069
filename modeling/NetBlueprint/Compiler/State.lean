import NetBlueprint.Compiler.Fault
import NetBlueprint.Compiler.Names
import NetBlueprint.Compiler.Suffix
import NetBlueprint.Graph.Network
import NetBlueprint.Substitution.Hygiene

/-!
Contract: the state of a compilation.

A compilation builds a network and keeps beside it the registry of names that may be referred to
before they are declared, the scopes of the branches, two tables that find layers by name, the
connections to be wired at the end, and a trace of its steps. A computation that fails keeps its
state, so the trace up to the failing step is not lost.

What compiles an instruction comes to compile others. Such functions take the compiler of the inner
instructions as an argument and run in any monad that can carry out single steps, so one text of
them serves a plain run and a run that is watched.
-/

namespace NetBlueprint

/-- The position of a scope in the list of scopes; the root scope is the first. -/
abbrev ScopeId := Nat

/-- The layers that are visible in a branch or at the root, the last registered first. -/
structure Scope where
  parent : Option ScopeId
  entries : List (String × LayerId)

/-- A connection that is wired at the end. It is flagged when an endpoint could not be resolved
where the connection stands. -/
structure PendingConnect where
  source : String
  target : String
  scope : ScopeId
  flagged : Bool
deriving DecidableEq, Repr

structure CompileState where
  network : Network
  registry : List (String × Instruction)
  compiledAhead : List String
  aheadInProgress : List String
  pending : Array PendingConnect
  scopes : Array Scope
  current : ScopeId
  firstNamed : List (String × LayerId)
  inputCache : List (String × LayerId)
  trace : Array String
  usedSuffixes : List String
  seed : UInt64
  drawnWords : Nat
  branchCount : Nat

/-- A step of a compilation; it keeps its state when it fails. -/
abbrev CompileM := ExceptT CompileFault (StateM CompileState)

namespace CompileState

def start (name : String) (seed : UInt64) : CompileState :=
  { network := Network.empty name
    registry := []
    compiledAhead := []
    aheadInProgress := []
    pending := #[]
    scopes := #[⟨none, []⟩]
    current := 0
    firstNamed := []
    inputCache := []
    trace := #[]
    usedSuffixes := []
    seed
    drawnWords := 0
    branchCount := 0 }

def logged (state : CompileState) (line : String) : CompileState :=
  { state with trace := state.trace.push line }

/-! ## Scopes and layers -/

/-- The chain of scopes from a scope to the root. A parent stands before its children, so the
number of scopes bounds the length. -/
def chainWithin (state : CompileState) : Nat → ScopeId → List Scope
  | 0, _ => []
  | budget + 1, id =>
    match state.scopes[id]? with
    | none => []
    | some scope =>
      match scope.parent with
      | none => [scope]
      | some parent => scope :: chainWithin state budget parent

def chain (state : CompileState) (id : ScopeId) : List Scope :=
  state.chainWithin state.scopes.size id

/-- The layer that a name stands for in a scope or the scopes around it. -/
def lookupChain (state : CompileState) (scope : ScopeId) (name : String) : Option LayerId :=
  (state.chain scope).findSome? fun inner => inner.entries.lookup name

/-- The layer that a name stands for in a scope, or else the first layer of that name. -/
def resolveExact (state : CompileState) (scope : ScopeId) (name : String) : Option LayerId :=
  (state.lookupChain scope name).or (state.network.findId? name)

/-- The layer that a name stands for in a scope, or else the first one made visible anywhere under
that name. -/
def resolveFallback (state : CompileState) (scope : ScopeId) (name : String) : Option LayerId :=
  (state.lookupChain scope name).or (state.firstNamed.lookup name)

/-- The layer that an endpoint stands for in a scope: under the name itself, under the name without
its hygiene suffix, or under that without its trailing digits. -/
def resolve (state : CompileState) (scope : ScopeId) (name : String) : Option LayerId :=
  let base := Name.base name
  let stem := Name.stem base
  (state.resolveExact scope name).or
    ((if base = name then none else state.resolveFallback scope base).or
      (if stem = base || stem.isEmpty then none else state.resolveFallback scope stem))

def scopeLayers (state : CompileState) (scope : ScopeId) : List LayerId :=
  match state.scopes[scope]? with
  | some found => (found.entries.map Prod.snd).reverse
  | none => []

def inCurrentScope? (state : CompileState) (name : String) : Option Layer :=
  match state.scopes[state.current]? with
  | some scope => (scope.entries.lookup name).bind state.network.layer?
  | none => none

def globalInput? (state : CompileState) (name : String) : Option LayerId :=
  state.inputCache.lookup name

/-- Enters a value in a table unless the name is taken. -/
def offered {Value : Type} (table : List (String × Value)) (name : String) (value : Value) :
    List (String × Value) :=
  if (table.lookup name).isSome then table else table ++ [(name, value)]

def registered (state : CompileState) (name : String) (id : LayerId) : CompileState :=
  { state with
    scopes := state.scopes.modify state.current fun scope =>
      { scope with entries := (name, id) :: scope.entries }
    firstNamed := offered state.firstNamed name id }

/-- Adds a layer to the network and makes it visible in the current scope. -/
def withLayer (state : CompileState) (name : String) (kind : LayerKind) : CompileState :=
  let id := state.network.size
  let visible := { state with network := state.network.addLayer name kind }.registered name id
  { visible with
    inputCache :=
      if kind.isInput then offered state.inputCache name id else state.inputCache }

def entered (state : CompileState) : CompileState :=
  { state with
    scopes := state.scopes.push ⟨some state.current, []⟩
    current := state.scopes.size }

end CompileState

/-! ## The registry of forward references -/

namespace Instruction

/-- The name under which an instruction can be referred to before it is compiled. A name with
brackets is not known before it is filled in. -/
def forwardName? : Instruction → Option String
  | .layer spec => if spec.name.toList.contains '[' then none else some spec.name
  | .moduleDef name _ _ _ | .templateDef name _ _ =>
    if name.toList.contains '[' then none else some name
  | _ => none

mutual

/-- Registers what can be referred to ahead: layers, modules and templates outside the bodies of
loops, branches and templates. -/
def prescan : List (String × Instruction) → Instruction → List (String × Instruction)
  | registry, .layer spec =>
    match forwardName? (.layer spec) with
    | some name => CompileState.offered registry name (.layer spec)
    | none => registry
  | registry, .templateDef name parameters body =>
    match forwardName? (.templateDef name parameters body) with
    | some name => CompileState.offered registry name (.templateDef name parameters body)
    | none => registry
  | registry, .moduleDef name inputs outputs body =>
    prescanAll
      (match forwardName? (.moduleDef name inputs outputs body) with
        | some name => CompileState.offered registry name (.moduleDef name inputs outputs body)
        | none => registry) body
  | registry, .program body | registry, .block body | registry, .expand _ _ body =>
    prescanAll registry body
  | registry, _ => registry

def prescanAll : List (String × Instruction) → List Instruction → List (String × Instruction)
  | registry, [] => registry
  | registry, first :: rest => prescanAll (prescan registry first) rest

end

end Instruction

namespace Compile

def log (line : String) : CompileM Unit :=
  modify fun state => state.logged line

def addLayer (name : String) (kind : LayerKind) : CompileM LayerId := do
  let id := (← get).network.size
  modify fun state => state.withLayer name kind
  return id

/-- Carries on unless an expression is at fault. -/
def expression {Result : Type} : Except ExprError Result → CompileM Result
  | .ok result => return result
  | .error error => throw (.expression error)

def layerCount : CompileM Nat :=
  return (← get).network.size

section Inner

variable {m : Type → Type} [Monad m] [MonadLiftT CompileM m]

def all (compile : Instruction → m Unit) : List Instruction → m Unit
  | [] => return ()
  | first :: rest => do
    compile first
    all compile rest

/-- Fills every instruction of a body in and compiles it before the next one is filled in. -/
def filled (compile : Instruction → m Unit) (substitution : Substitution) :
    List Instruction → m Unit
  | [] => return ()
  | first :: rest => do
    compile (← expression (substitution.apply first))
    filled compile substitution rest

end Inner

/-! ## Compiling ahead -/

/-- Turns to what is registered under a name, in the root scope; the scope to come back to is
returned with it. A template, a name that is not registered, and one that is compiled or being
compiled already is left alone. -/
def startAhead (name : String) : CompileM (Option (Instruction × ScopeId)) := do
  let state ← get
  if state.compiledAhead.contains name || state.aheadInProgress.contains name then return none
  match state.registry.lookup name with
  | none => return none
  | some (.templateDef _ _ _) => return none
  | some instruction =>
    modify fun state => { state with aheadInProgress := name :: state.aheadInProgress }
    log s!"lazy: compiling '{name}' ahead of its declaration"
    modify fun state => { state with current := 0 }
    return some (instruction, state.current)

def finishAhead (name : String) (saved : ScopeId) : CompileM Unit :=
  modify fun state =>
    { state with
      current := saved
      aheadInProgress := state.aheadInProgress.erase name
      compiledAhead := name :: state.compiledAhead }

/-- Compiles what is registered under a name in the root scope, ahead of its declaration. -/
def ahead {m : Type → Type} [Monad m] [MonadLiftT CompileM m] (compile : Instruction → m Unit)
    (name : String) : m Unit := do
  match ← startAhead name with
  | none => return ()
  | some (instruction, saved) =>
    compile instruction
    finishAhead name saved

/-- Tells, once, that an instruction met in its order was compiled ahead. Its name is not
registered any more after that. -/
def takeAhead (name : String) (instruction : Instruction) : CompileM Bool := do
  let state ← get
  if state.compiledAhead.contains name
      && (state.registry.lookup name).any fun found => found.same instruction then
    set { state with
      compiledAhead := state.compiledAhead.erase name
      registry := state.registry.filter fun entry => entry.1 != name }
    return true
  else return false

/-! ## Suffixes -/

/-- Draws words until one gives a suffix that is not in use. -/
def drawSuffix (label : String) : Nat → Nat → CompileM String
  | 0, _ => throw (.suffixesExhausted label)
  | budget + 1, attempt => do
    let state ← get
    let suffix := Suffix.suffixText label attempt (Suffix.randomWord state.seed state.drawnWords)
    set { state with drawnWords := state.drawnWords + 1 }
    if state.usedSuffixes.contains suffix then drawSuffix label budget (attempt + 1)
    else
      modify fun state => { state with usedSuffixes := suffix :: state.usedSuffixes }
      return suffix

/-- A suffix that no other expansion of the run has. -/
def freshSuffix (label : String) : CompileM String :=
  drawSuffix label Suffix.attemptLimit 0

end Compile

end NetBlueprint
