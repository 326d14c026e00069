import NetBlueprint.Compiler.Expansion
import NetBlueprint.Compiler.Grouping
import NetBlueprint.Compiler.Materialize
import NetBlueprint.Compiler.Wiring

/-!
Contract: compiling a program to a network.

The names of the program are registered first, then its instructions are compiled in order, and at
the end the recorded connections are wired. The depth of nested instructions is bounded; only
templates that call each other without end exhaust the bound.
-/

namespace NetBlueprint

namespace Compile

def refuse (opcode : Opcode) : CompileM Unit :=
  throw (.unsupportedOp opcode)

/-- Compiles an instruction; `compile` compiles those inside it and those it refers to. -/
def step {m : Type → Type} [Monad m] [MonadLiftT CompileM m] (compile : Instruction → m Unit) :
    Instruction → m Unit
  | .program body | .block body => all compile body
  | .layer spec => layer spec
  | .connect source target => connect compile source target
  | .moduleDef name inputs outputs body => moduleDef compile name inputs outputs body
  | .loop counter first last body => loop compile counter first last body
  | .branch name test body alternative => branch compile name test body alternative
  | .templateDef name parameters body => templateDef name parameters body
  | .templateCall name args | .call name args => templateCall compile name args
  | .expand group annotations body => expand compile group annotations body
  | .moduleCall _ _ => refuse .moduleCall
  | .condition _ => refuse .condition
  | .constant _ _ => refuse .constant
  | .file _ => refuse .file
  | .otherwise _ => refuse .otherwise

def within : Nat → Instruction → CompileM Unit
  | 0, _ => throw .endlessExpansion
  | depth + 1, instruction => step (within depth) instruction

/-- Levels allowed to template calls inside template calls. -/
def expansionLevels : Nat := 100000

/-- A depth that is enough for a program without templates: every name is compiled ahead at most
once on the way down, and between two of them stand at most the nested instructions. -/
def depthFor (program : Instruction) : Nat :=
  (program.nodeCount + 1) * (program.nodeCount + 1) + expansionLevels

def prepare (name : String) (program : Instruction) : CompileM Unit := do
  log s!"compile '{name}': {program.nodeCount} instruction node(s)"
  modify fun state => { state with registry := program.prescan [] }
  let registered := (← get).registry.length
  log s!"prescan: {registered} forward-reference target(s)"

/-- Registers names and compiles all instructions, but wires nothing. -/
def build (name : String) (program : Instruction) : CompileM Unit := do
  prepare name program
  within (depthFor program) program

end Compile

structure Compiled where
  network : Network
  trace : List String

/-- Why a compilation was given up, with the trace up to the step that failed. -/
structure CompileError where
  fault : CompileFault
  trace : List String

namespace Compile

/-- Wires what a build recorded, unless it failed. -/
def wiredUp : Except CompileFault Unit × CompileState → Except CompileFault Unit × CompileState
  | (.ok (), state) => (.ok (), bindAll state)
  | (.error fault, state) => (.error fault, state)

/-- Compiles a program with a given seed; the final state shows what was recorded on the way. -/
def run (name : String) (seed : UInt64) (program : Instruction) :
    Except CompileFault Unit × CompileState :=
  wiredUp ((build name program).run (CompileState.start name seed))

def answer : Except CompileFault Unit × CompileState → Except CompileError Compiled
  | (.ok (), state) => .ok ⟨state.network, state.trace.toList⟩
  | (.error fault, state) => .error ⟨fault, state.trace.toList⟩

end Compile

/-- Compiles a program to a network. -/
def compile (name : String) (seed : UInt64) (program : Instruction) :
    Except CompileError Compiled :=
  Compile.answer (Compile.run name seed program)

end NetBlueprint
