import NetBlueprint.Compiler.Run
import NetBlueprint.Pipeline.Config
import NetBlueprint.Pipeline.Metrics
import NetBlueprint.Program.Loading

/-!
Contract: the stages of a run.

A program is compiled, the compiled network is validated, and only a validated network is
evaluated. Each stage is a type of its own, so the order cannot be missed. Times are given by the
caller.
-/

namespace NetBlueprint

inductive PipelineError where
  | program (error : Program.LoadError)
  | compile (error : CompileError)
  | invalid (error : InvalidNetwork)
  | eval (error : GraphError)
  | config (error : ConfigError)

/-- The message of the error inside, where the pipeline wraps one. -/
def PipelineError.inner? : PipelineError → Option String
  | .program (.notAProgram opcode) => some (Program.notAProgramMessage opcode)
  | .program _ => some "failed to parse program"
  | .compile error => some error.fault.message
  | .invalid error => some error.message
  | .eval error => some error.message
  | .config _ => none

def PipelineError.message (error : PipelineError) : String :=
  let inner := error.inner?.getD ""
  match error with
  | .program _ => s!"program error: {inner}"
  | .compile _ => s!"compilation failed: {inner}"
  | .invalid _ => s!"invalid network: {inner}"
  | .eval _ => s!"evaluation failed: {inner}"
  | .config fault => s!"configuration error: {fault.message}"

structure CompiledStage where
  config : Config
  metrics : Metrics
  network : Network
  trace : List String

/-- A network that passed validation at the configured level. -/
structure ValidatedStage where
  config : Config
  metrics : Metrics
  network : Network
  trace : List String

namespace Pipeline

/-- Compiles a program under a configuration. Where the configuration has no seed, `fallback` is
the seed. -/
def compile (config : Config) (fallback : UInt64) (time : Nat) (name : String)
    (program : Instruction) : Except PipelineError CompiledStage :=
  match config.check with
  | .error error => .error (.config error)
  | .ok () =>
    match NetBlueprint.compile name (config.seed.getD fallback) program with
    | .error error => .error (.compile error)
    | .ok compiled =>
      let trace := if config.recordTrace then compiled.trace else []
      .ok
        { config
          metrics := Metrics.empty.recordCompile time compiled.network trace.length
          network := compiled.network
          trace }

/-- Loads a program and compiles it; a text that does not load is reported before the
configuration is checked. -/
def compileText (config : Config) (fallback : UInt64) (time : Nat) (name text : String) :
    Except PipelineError CompiledStage :=
  match Program.load text with
  | .error error => .error (.program error)
  | .ok program => compile config fallback time name program

end Pipeline

def CompiledStage.validate (stage : CompiledStage) (time : Nat) :
    Except PipelineError ValidatedStage :=
  match stage.network.validate stage.config.shapeOptions stage.config.level with
  | .error invalid => .error (.invalid invalid)
  | .ok () =>
    .ok
      { config := stage.config
        metrics := stage.metrics.recordValidate time stage.config.level
        network := stage.network
        trace := stage.trace }

namespace ValidatedStage

def shapeReport (stage : ValidatedStage) : ShapeReport :=
  stage.network.analyze stage.config.shapeOptions

/-- Evaluates every forward root on named inputs. Weights created on the way are kept. -/
def forward (stage : ValidatedStage) (inputs : List (String × Vector32)) :
    Except PipelineError (List (String × Vector32)) × ValidatedStage :=
  match stage.network.forward ⟨inputs, stage.config.mode⟩ with
  | (.ok values, network) => (.ok values, { stage with network })
  | (.error error, network) => (.error (.eval error), { stage with network })

end ValidatedStage

end NetBlueprint
