import NetBlueprint.Compiler.State

/-!
Contract: repetitions and templates.

A loop compiles its body once for every value of its counter, in ascending order, and every
instruction is filled in just before it is compiled. A template call binds the parameters, draws a
fresh suffix and puts it on every name the body defines, so that two calls never share a layer.

Overflow checks are off: the trace shows the number of rounds as a signed 64-bit number, which wraps
around when the counter runs over half of that range or more. The rounds themselves are all made.
-/

namespace NetBlueprint.Compile

/-- The value of a loop bound, which may stand in brackets. -/
def bound (counter text : String) : CompileM Int :=
  match Expr.evaluate (unbracket text) with
  | .ok value => return value
  | .error _ => throw (.nonNumericBound counter text)

def roundSubstitution (counter : String) (value : Int) : Substitution :=
  Substitution.empty.bind counter (toString value)

/-- The first value and the number of rounds of a loop over a body of some length. -/
def loopRange (counter first last : String) (size : Nat) : CompileM (Int × Nat) := do
  let low ← bound counter first
  let high ← bound counter last
  if high < low then
    log s!"FOR {counter} in {low}..={high}: empty range"
    return (low, 0)
  else
    let count := high - low + 1
    let shown := count.bmod (Nat.pow 2 64)
    log (s!"FOR {counter} in {low}..={high}: {shown} iteration(s) x "
      ++ s!"{size} instruction(s)")
    return (low, count.toNat)

def templateDef (name : String) (parameters : List String) (body : List Instruction) :
    CompileM Unit := do
  modify fun state =>
    { state with
      network := state.network.registerTemplate name (.templateDef name parameters body) }
  let shown := String.intercalate ", " parameters
  log s!"MACRO_DEF {name}({shown})"

/-- The template that a name stands for: one that is defined already, or one that is registered
and becomes defined by its first use. -/
def findTemplate (name : String) : CompileM (Option Instruction) := do
  let state ← get
  match state.network.template? name with
  | some definition => return some definition
  | none =>
    match state.registry.lookup name with
    | some (.templateDef declared parameters body) =>
      let definition := Instruction.templateDef declared parameters body
      set { state with network := state.network.registerTemplate name definition }
      return some definition
    | _ => return none

def callSubstitution (parameters args : List String) (suffix : String) : Substitution :=
  ((parameters.zip args).foldl (fun substitution pair => substitution.bind pair.1 pair.2)
    Substitution.empty).bind suffixKey suffix

/-- A template call that is being compiled: the parameters and the body of the template, the suffix
of the call, and how the body is filled in. -/
structure OpenTemplate where
  parameters : List String
  body : List Instruction
  suffix : String
  substitution : Substitution

/-- Finds a template, binds its parameters and puts a fresh suffix on what its body defines. -/
def openTemplate (name : String) (args : List String) : CompileM OpenTemplate := do
  match ← findTemplate name with
  | some (.templateDef _ parameters body) =>
    if parameters.length != args.length then
      throw (.templateArity name parameters.length args.length)
    let suffix ← freshSuffix name
    let substitution := callSubstitution parameters args suffix
    let renames ← expression (hygienicRenames body substitution parameters suffix false)
    let shown := String.intercalate ", " args
    log (s!"MACRO_CALL {name}({shown}) suffix {suffix}: {renames.length} renamed definition(s)")
    return ⟨parameters, body, suffix, substitution.withRenames renames⟩
  | _ => throw (.templateNotFound name)

def annotate (group : Option String) (annotations : TextTable) : CompileM Unit :=
  modify fun state =>
    let grouped := match group with
      | some value => state.network.annotate "group" value
      | none => state.network
    { state with
      network :=
        annotations.foldl (fun network entry => network.annotate entry.1 entry.2) grouped }

def startExpand (group : Option String) (annotations : TextTable) (size : Nat) :
    CompileM Unit := do
  annotate group annotations
  let shown := group.getD "-"
  log s!"EXPAND group={shown}: inlining {size} instruction(s)"

section Inner

variable {m : Type → Type} [Monad m] [MonadLiftT CompileM m]

/-- Compiles a number of rounds, from a value of the counter on. -/
def rounds (compile : Instruction → m Unit) (counter : String) (body : List Instruction) :
    Nat → Int → m Unit
  | 0, _ => return ()
  | count + 1, value => do
    filled compile (roundSubstitution counter value) body
    rounds compile counter body count (value + 1)

def loop (compile : Instruction → m Unit) (counter first last : String)
    (body : List Instruction) : m Unit := do
  let (low, count) ← loopRange counter first last body.length
  rounds compile counter body count low

def templateCall (compile : Instruction → m Unit) (name : String) (args : List String) :
    m Unit := do
  let opened ← openTemplate name args
  filled compile opened.substitution opened.body

def expand (compile : Instruction → m Unit) (group : Option String)
    (annotations : TextTable) (body : List Instruction) : m Unit := do
  startExpand group annotations body.length
  all compile body

end Inner

end NetBlueprint.Compile
