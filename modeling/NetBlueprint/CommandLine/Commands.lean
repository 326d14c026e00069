import NetBlueprint.CommandLine.Arguments
import NetBlueprint.CommandLine.Help
import NetBlueprint.Json.Writer
import NetBlueprint.Pipeline.Stages

/-!
Contract: what the commands print.

A command is a pure function of its arguments and of what it finds around it: the contents of
files, a seed for runs without one, and the texts of the two times. It prints lines as it goes on;
lines printed before a failure stay.
-/

namespace NetBlueprint.CommandLine

structure Surroundings where
  contents : String → Except String String
  fallbackSeed : UInt64
  compileTime : String
  validateTime : String

/-- Why a command fails; an error may wrap another. -/
structure Failure where
  message : String
  cause : Option String
deriving DecidableEq, Repr

/-- A command prints lines and may fail. -/
abbrev CommandM := ExceptT Failure (StateM (Array String))

def say (text : String) : CommandM Unit :=
  modify fun lines => lines.push text

def failWith {Result : Type} (message : String) : CommandM Result :=
  throw ⟨message, none⟩

def failPipeline {Result : Type} (error : PipelineError) : CommandM Result :=
  throw ⟨error.message, error.inner?⟩

/-- Carries on unless the pipeline stops. -/
def orFail {Result : Type} : Except PipelineError Result → CommandM Result
  | .ok result => return result
  | .error error => failPipeline error

def banner (title : String) : CommandM Unit := do
  let bar := repeated 54 "═"
  say s!"╔{bar}╗"
  say ("║ " ++ padBoth 52 ("netc · " ++ title) ++ " ║")
  say s!"╚{bar}╝"
  say ""

/-! ## Files -/

/-- The parts of a path that name something. -/
def pathParts (path : String) : List String :=
  (path.splitOn "/").filter fun part => part != "" && part != "."

/-- The name of a file without its last extension; a leading dot starts no extension. -/
def fileStem? (path : String) : Option String :=
  match (pathParts path).getLast? with
  | none => none
  | some ".." => none
  | some name =>
    match (name.toList.reverse.dropWhile (· != '.')).drop 1 with
    | [] => some name
    | stem => some (String.ofList stem.reverse)

def loadConfig (around : Surroundings) : Option String → CommandM Config
  | none => return Config.standard
  | some path => do
    let result := match around.contents path with
      | .error reason => Except.error (ConfigError.unreadable path reason)
      | .ok text => Config.ofToml text
    match result with
    | .ok config => return config
    | .error error =>
      let inner := PipelineError.message (.config error)
      failWith s!"failed to load config from '{path}': {inner}"

def loadReason : Program.LoadError → String
  | .notAProgram opcode => Program.notAProgramMessage opcode
  | _ => "failed to parse program"

def loadProgram (around : Surroundings) (file : String) : CommandM Instruction := do
  let result := match around.contents file with
    | .error reason => Except.error ("failed to read program: " ++ reason)
    | .ok text => (Program.load text).mapError loadReason
  match result with
  | .ok program => return program
  | .error reason => failWith s!"failed to load program '{file}': {reason}"

/-- Compiles the program in a file; the network is named after the file. -/
def compileFile (around : Surroundings) (config : Config) (file : String) :
    CommandM (Except PipelineError CompiledStage) := do
  let program ← loadProgram around file
  return Pipeline.compile config around.fallbackSeed 0 ((fileStem? file).getD "network") program

/-! ## Compiling -/

def sayTrace (trace : List String) : CommandM Unit := do
  say s!"  Trace ({trace.length} entries):"
  for (entry, position) in trace.zipIdx do
    say ("   " ++ padLeft 4 (toString position) ++ "  " ++ entry)

def issueLine (issue : Issue) : String :=
  let tag := match issue.severity with
    | .error => "error"
    | .warning => "warn "
  s!"        {tag}: {issue.message}"

/-- The configuration with the level and the seed that the command line asks for. -/
def adjustedConfig (config : Config) (level : Option String) (trace : Bool)
    (seed : Option UInt64) : CommandM Config := do
  let adjusted : Config :=
    { config with seed := seed.or config.seed, recordTrace := config.recordTrace || trace }
  match level with
  | none => return adjusted
  | some name =>
    match ValidationLevel.ofName? name with
    | some found => return { adjusted with level := found }
    | none => failWith s!"unknown validation level '{name}'"

def runCompile (around : Surroundings) (given : Config) (file : String) (level : Option String)
    (trace : Bool) (seed : Option UInt64) : CommandM Unit := do
  banner "Compiler"
  let config ← adjustedConfig given level trace seed
  say "  Config:"
  say s!"   Program:    {file}"
  say s!"   Validation: {config.level.name}"
  say s!"   Contract:   {config.contract.name}"
  say ""
  say "  [1/2] Compiling..."
  match ← compileFile around config file with
  | .error (.compile error) =>
    sayTrace error.trace
    failPipeline (.compile error)
  | .error error => failPipeline error
  | .ok compiled =>
    say ("        " ++ compiled.network.summary)
    for issue in compiled.network.issues do
      say (issueLine issue)
    if trace then sayTrace compiled.trace
    say ""
    say "  [2/2] Validating..."
    let validated ← orFail (compiled.validate 0)
    say "        OK"
    say ""
    say "  Metrics:"
    say ("   " ++ validated.metrics.summaryWith around.compileTime around.validateTime)
    say ""

/-! ## Inspecting -/

/-- Names with commas between them, or a dash. -/
def nameList (names : List String) : String :=
  if names.isEmpty then "-" else String.intercalate ", " names

def tableRow (index name kind degree shape params : String) : String :=
  "  " ++ padRight 4 index ++ " " ++ padRight 28 name ++ " " ++ padRight 12 kind ++ " "
    ++ padRight 10 degree ++ " " ++ padRight 14 shape ++ " " ++ params

def layerRow (report : ShapeReport) (layer : Layer) : String :=
  let shape := match report.shapes.known layer.id with
    | some shape => shape.render
    | none => "?"
  let params := layer.kind.parameters.map fun entry => entry.1 ++ "=" ++ entry.2
  tableRow (toString layer.id) (truncate 28 layer.name) layer.kind.name
    s!"{layer.inputs.length}/{layer.outputs.length}" (truncate 14 shape)
    (String.intercalate " " params)

/-- Prints issues, the first cycle, and what the shape analysis found. -/
def sayDiagnostics (network : Network) (report : ShapeReport) : CommandM Unit := do
  for issue in network.issues do
    say ("  issue: " ++ issue.render)
  match network.findCycle with
  | none => pure ()
  | some cycle => say ("  cycle: " ++ String.intercalate " -> " (cycle.map network.nameOf))
  for warning in report.warnings do
    say ("  warn:  " ++ warning)
  for error in report.errors do
    say ("  error: " ++ error)

def runInspect (around : Surroundings) (config : Config) (file : String) : CommandM Unit := do
  banner "Inspector"
  let compiled ← orFail (← compileFile around config file)
  let network := compiled.network
  let report := network.analyze config.shapeOptions
  say ("  " ++ network.summary)
  say ("  Inputs:  " ++ nameList (network.inputLayers.map network.nameOf))
  say ("  Outputs: " ++ nameList (network.outputLayers.map network.nameOf))
  if !network.templateNames.isEmpty then
    say ("  Macros:  " ++ nameList network.templateNames)
  for (key, value) in network.annotations do
    say s!"  Meta:    {key} = {value}"
  say ""
  say (tableRow "Idx" "Name" "Kind" "In/Out" "Shape" "Params")
  say ("  " ++ repeated 90 "-")
  for layer in network.layers.toList do
    say (layerRow report layer)
  say ""
  sayDiagnostics network report
  say ("  " ++ report.summary)
  say ""

/-! ## Evaluating -/

/-- Reads the values of an input: numbers with commas between them, blanks allowed. -/
def readValues (name text : String) : CommandM Vector32 := do
  let parts := (text.splitOn ",").map fun part => Text.trim part
  (parts.filter fun part => !part.isEmpty).mapM fun part =>
    match Decimal.readFloat32? part.toList with
    | some value => pure value
    | none => failWith s!"input '{name}': bad value '{part}': invalid float literal"

/-- Reads an input: a name, an equals sign and values. -/
def readInput (pair : String) : CommandM (String × Vector32) := do
  let characters := pair.toList
  match characters.dropWhile (· != '=') with
  | [] => failWith s!"expected NAME=VALUES, got '{pair}'"
  | _ :: values =>
    let name := Text.trim (String.ofList (characters.takeWhile (· != '=')))
    if name.isEmpty then failWith s!"missing input name in '{pair}'"
    return (name, ← readValues name (String.ofList values))

def vectorText (values : Vector32) : String :=
  let shown := values.map fun value =>
    String.ofList (Decimal.vectorLayout.write (Decimal.decode32 value))
  "[" ++ String.intercalate ", " shown ++ "]"

def configWithMode (config : Config) : Option String → CommandM Config
  | none => return config
  | some name =>
    match ModuleMode.ofName? name with
    | some mode => return { config with mode }
    | none => failWith s!"unknown module mode '{name}'"

def runEval (around : Surroundings) (given : Config) (file : String) (inputs : List String)
    (mode : Option String) (json : Bool) : CommandM Unit := do
  let config ← configWithMode given mode
  let feed ← inputs.mapM readInput
  let compiled ← orFail (← compileFile around config file)
  let validated ← orFail (compiled.validate 0)
  let outputs ← orFail (validated.forward (Text.sortedTable feed)).1
  if json then
    let members := outputs.map fun (name, values) => (name, Json.Value.list (values.map .single))
    say (Json.pretty 0 (.record members))
  else
    banner "Evaluator"
    say ("  " ++ validated.network.summary)
    say s!"  Module mode: {config.mode.name}"
    say ""
    say "  Outputs:"
    for (name, values) in outputs do
      say ("   " ++ padRight 24 name ++ " " ++ vectorText values)
    say ""

/-! ## All commands -/

/-- What a run leaves behind: an exit code and the lines of both streams. -/
structure Report where
  code : Nat
  stdout : List String
  stderr : List String
deriving DecidableEq, Repr

def versionLine : String := "netc 0.1.0"

def usageLines : List String :=
  [Level.program.usage, "", "For more information, try '--help'."]

/-- The lines about a failure; the lines of its cause are indented. -/
def failureLines (failure : Failure) : List String :=
  s!"Error: {failure.message}" ::
    (match failure.cause with
      | none => []
      | some cause => "" :: "Caused by:" :: (cause.splitOn "\n").map ("    " ++ ·))

def execute (around : Surroundings) (invocation : Invocation) : CommandM Unit := do
  let config ← loadConfig around invocation.config
  match invocation.command with
  | .compile file level trace seed => runCompile around config file level trace seed
  | .inspect file => runInspect around config file
  | .eval file inputs mode json => runEval around config file inputs mode json

/-- The compiled network that a command works on, as far as it gets that far. -/
def compiled? (around : Surroundings) (invocation : Invocation) : Option CompiledStage :=
  let stage : CommandM CompiledStage := do
    let config ← loadConfig around invocation.config
    orFail (← compileFile around config invocation.command.file)
  match stage.run #[] with
  | (.ok compiled, _) => some compiled
  | (.error _, _) => none

/-- Runs the program on its arguments. A usage error leaves code 2, a failure code 1. -/
def run (around : Surroundings) (arguments : List String) : Report :=
  match parse arguments with
  | .error .usage => ⟨2, [], usageLines⟩
  | .error .version => ⟨0, [versionLine], []⟩
  | .error (.help level) => ⟨0, level.page, []⟩
  | .ok invocation =>
    match (execute around invocation).run #[] with
    | (.ok (), lines) => ⟨0, lines.toList, []⟩
    | (.error failure, lines) => ⟨1, lines.toList, failureLines failure⟩

end NetBlueprint.CommandLine
