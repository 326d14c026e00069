import NetBlueprint.Compiler.State

/-!
Contract: connections.

A connection is recorded where it stands and wired when everything is compiled. Endpoints that are
registered but not yet compiled are compiled on the spot. An endpoint that cannot be resolved at
that point is an issue of the network and no fault; the connection stays recorded, and is wired
after all when the endpoint appears later.
-/

namespace NetBlueprint.Compile

def hasBrackets (endpoint : String) : Bool :=
  endpoint.toList.any fun character => character == '[' || character == ']'

/-- Adds the input that an auto-input name stands for, where the base input exists and the name
does not. -/
def autoInput (name : String) : CompileM Unit := do
  let state ← get
  if !Name.isAutoInput name || (state.resolveExact state.current name).isSome then return ()
  let baseIsInput :=
    ((state.resolveExact state.current Name.autoInputBase).bind state.network.layer?).any
      fun layer => layer.kind.isInput
  if baseIsInput then
    let id ← addLayer name (.input (some 1) none)
    log s!"CONNECT: synthesized auto-input '{name}' -> #{id}"

def record (connection : PendingConnect) : CompileM Unit :=
  modify fun state => { state with pending := state.pending.push connection }

def unresolvedMessage (source target : String) (missing : List String) : String :=
  let quoted := String.intercalate ", " (missing.map fun endpoint => s!"'{endpoint}'")
  s!"CONNECT {source} -> {target}: unresolved endpoint(s) {quoted}; "
    ++ "pair kept pending for the bind pass"

/-- Refuses endpoints that still carry brackets and adds the auto-input that the source may stand
for; returns the scope in which the endpoints are looked up. -/
def startConnect (source target : String) : CompileM ScopeId := do
  if hasBrackets source then throw (.unsupportedIndexing source)
  if hasBrackets target then throw (.unsupportedIndexing target)
  let scope := (← get).current
  autoInput source
  return scope

/-- Decides whether an endpoint cannot be resolved as it stands. -/
def isUnknown (scope : ScopeId) (endpoint : String) : CompileM Bool :=
  return ((← get).resolveExact scope endpoint).isNone

/-- Records a connection once its endpoints are compiled, and the issue with those of them that
cannot be resolved. -/
def finishConnect (scope : ScopeId) (source target : String) : CompileM Unit := do
  let state ← get
  let missing := [source, target].filter fun endpoint => (state.resolve scope endpoint).isNone
  record ⟨source, target, scope, !missing.isEmpty⟩
  if missing.isEmpty then log s!"CONNECT {source} -> {target} (deferred)"
  else
    let message := unresolvedMessage source target missing
    log message
    modify fun state => { state with network := state.network.addIssue ⟨.error, message⟩ }

section Inner

variable {m : Type → Type} [Monad m] [MonadLiftT CompileM m]

/-- Compiles an endpoint ahead where it cannot be resolved exactly. -/
def ensure (compile : Instruction → m Unit) (scope : ScopeId) (endpoint : String) : m Unit := do
  if ← isUnknown scope endpoint then ahead compile endpoint

def connect (compile : Instruction → m Unit) (source target : String) : m Unit := do
  let scope ← startConnect source target
  ensure compile scope source
  ensure compile scope target
  finishConnect scope source target

end Inner

/-! ## The final wiring -/

/-- How many connections were wired and how many skipped. -/
structure Tally where
  wired : Nat
  skipped : Nat
deriving DecidableEq, Repr

/-- Wires a connection whose endpoints can both be resolved. -/
def bindOne (connection : PendingConnect) (tally : Tally) (state : CompileState) :
    Tally × CompileState :=
  match state.resolve connection.scope connection.source,
      state.resolve connection.scope connection.target with
  | some source, some target =>
    match state.network.connect source target with
    | .error _ => ({ tally with skipped := tally.skipped + 1 }, state)
    | .ok (_, network) =>
      let wired := { state with network }
      ({ tally with wired := tally.wired + 1 },
        if connection.flagged then
          wired.logged s!"bind: {connection.source} -> {connection.target} resolved late"
        else wired)
  | _, _ => ({ tally with skipped := tally.skipped + 1 }, state)

def bindEach : List PendingConnect → Tally × CompileState → Tally × CompileState
  | [], result => result
  | connection :: rest, (tally, state) => bindEach rest (bindOne connection tally state)

def bindAll (state : CompileState) : CompileState :=
  let (tally, final) := bindEach state.pending.toList (⟨0, 0⟩, state)
  final.logged (s!"bind: {tally.wired} connect(s) wired, {tally.skipped} skipped, "
    ++ s!"{final.network.edgeCount} edge(s) total")

end NetBlueprint.Compile
