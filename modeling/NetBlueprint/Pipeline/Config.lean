import NetBlueprint.Analysis.Validation
import NetBlueprint.Graph.Evaluation
import NetBlueprint.Toml.Reader

/-!
Contract: the configuration of a run.

A configuration is read from a TOML document: known keys have to hold values of their type, unknown
keys are ignored, and missing keys keep their defaults. Names of levels, contracts and modes are
spelled exactly, as a text or as the key of a table without content. It is written back with one
line for each key, in a fixed order.
-/

namespace NetBlueprint

/-- The configuration of a run. Without a seed the suffixes of a run are not reproducible. -/
structure Config where
  level : ValidationLevel
  maxPasses : Nat
  contract : OutputContract
  mode : ModuleMode
  recordTrace : Bool
  seed : Option UInt64
deriving DecidableEq, Repr

inductive ConfigError where
  | notToml
  | notSerialisable
  | noPasses
  | unreadable (path reason : String)
deriving DecidableEq, Repr

def ConfigError.message : ConfigError → String
  | .notToml => "TOML parse error"
  | .notSerialisable => "TOML serialise error"
  | .noPasses => "max_shape_passes must be at least 1"
  | .unreadable path reason => s!"cannot read config '{path}': {reason}"

namespace Config

/-- The configuration that an empty document gives. -/
def standard : Config :=
  { level := .shapes
    maxPasses := ShapeOptions.standard.maxPasses
    contract := ShapeOptions.standard.contract
    mode := .parallel
    recordTrace := true
    seed := none }

def shapeOptions (config : Config) : ShapeOptions :=
  ⟨config.maxPasses, config.contract⟩

/-- A run needs at least one pass of the shape analysis. -/
def check (config : Config) : Except ConfigError Unit :=
  if config.maxPasses = 0 then .error .noPasses else .ok ()

/-! ## Reading -/

/-- Reads a top-level key with a default; what stands there has to be a value of the right
type. -/
def field {Field : Type} (document : Toml.Entries) (key : String)
    (read? : Toml.Node → Option Field) (default : Field) : Except ConfigError Field :=
  match document.node? key with
  | none => .ok default
  | some node =>
    match read? node with
    | some found => .ok found
    | none => .error .notToml

def oneOf? {Choice : Type} (choices : List Choice) (name : Choice → String) (node : Toml.Node) :
    Option Choice :=
  node.choice?.bind fun given => choices.find? fun choice => name choice == given

def natural? : Toml.Node → Option Nat
  | .integer value => if value < 0 then none else some value.toNat
  | _ => none

def boolean? : Toml.Node → Option Bool
  | .boolean value => some value
  | _ => none

def ofEntries (document : Toml.Entries) : Except ConfigError Config := do
  let level ← field document "validation_level"
    (oneOf? [.none, .structural, .shapes] ValidationLevel.name) standard.level
  let maxPasses ← field document "max_shape_passes" natural? standard.maxPasses
  let contract ← field document "output_contract"
    (oneOf? [.thin, .thick] OutputContract.name) standard.contract
  let mode ← field document "module_mode" (oneOf? [.parallel, .chained] ModuleMode.name)
    standard.mode
  let recordTrace ← field document "record_trace" boolean? standard.recordTrace
  let seed ← field document "seed"
    (fun node => (natural? node).map fun number => some (UInt64.ofNat number)) standard.seed
  return { level, maxPasses, contract, mode, recordTrace, seed }

/-- Reads a configuration from a document and checks it. -/
def ofToml (text : String) : Except ConfigError Config :=
  match Toml.read text with
  | none => .error .notToml
  | some entries =>
    match ofEntries entries with
    | .error error => .error error
    | .ok config =>
      match config.check with
      | .error error => .error error
      | .ok () => .ok config

/-! ## Writing -/

def line (key value : String) : String :=
  key ++ " = " ++ value ++ "\n"

def quote (text : String) : String :=
  "\"" ++ text ++ "\""

/-- A number, unless it is beyond the integers of a document. -/
def integerText (value : Nat) : Except ConfigError String :=
  if Text.maxSigned < value then .error .notSerialisable else .ok (toString value)

def toToml (config : Config) : Except ConfigError String := do
  let passes ← integerText config.maxPasses
  let seed ← match config.seed with
    | none => pure ""
    | some seed => do
      let text ← integerText seed.toNat
      pure (line "seed" text)
  return line "validation_level" (quote config.level.name)
    ++ line "max_shape_passes" passes
    ++ line "output_contract" (quote config.contract.name)
    ++ line "module_mode" (quote config.mode.name)
    ++ line "record_trace" (if config.recordTrace then "true" else "false")
    ++ seed

end Config

end NetBlueprint
