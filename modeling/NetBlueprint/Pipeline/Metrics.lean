import NetBlueprint.Analysis.Validation

/-!
Contract: sizes and times of a run.

Times are counted in nanoseconds. A summary shows them in milliseconds with two places; the
milliseconds are computed in 64-bit arithmetic from the whole seconds and the nanoseconds beside
them.
-/

namespace NetBlueprint

/-- Sizes and times of a run. The level is missing until the network has been validated. -/
structure Metrics where
  compileTime : Nat
  validateTime : Nat
  layers : Nat
  edges : Nat
  issues : Nat
  errors : Nat
  traceLength : Nat
  level : Option ValidationLevel
deriving DecidableEq, Repr

namespace Metrics

def empty : Metrics := ⟨0, 0, 0, 0, 0, 0, 0, none⟩

def recordCompile (metrics : Metrics) (time : Nat) (network : Network) (traceLength : Nat) :
    Metrics :=
  { metrics with
    compileTime := time
    layers := network.size
    edges := network.edgeCount
    issues := network.issues.length
    errors := network.errorCount
    traceLength }

def recordValidate (metrics : Metrics) (time : Nat) (level : ValidationLevel) : Metrics :=
  { metrics with validateTime := time, level := some level }

def totalTime (metrics : Metrics) : Nat :=
  metrics.compileTime + metrics.validateTime

def second : Nat := 1000000000

/-- Nanoseconds as milliseconds with two places. -/
def milliseconds (time : Nat) : String :=
  let whole := (UInt64.ofNat (time / second)).toFloat
  let part := (UInt64.ofNat (time % second)).toFloat / (UInt64.ofNat second).toFloat
  Decimal.fixedTwo ((whole + part) * (UInt64.ofNat 1000).toFloat)

/-- One line about a run, with given texts for the two times. -/
def summaryWith (metrics : Metrics) (compileText validateText : String) : String :=
  let level := match metrics.level with
    | some level => level.name
    | none => "not run"
  s!"Pipeline: {metrics.layers} layers, {metrics.edges} edges, {metrics.issues} issues "
    ++ s!"({metrics.errors} errors) | compile {compileText} ms | "
    ++ s!"validate {validateText} ms ({level}) | trace {metrics.traceLength} entries"

def summary (metrics : Metrics) : String :=
  metrics.summaryWith (milliseconds metrics.compileTime) (milliseconds metrics.validateTime)

end Metrics

end NetBlueprint
