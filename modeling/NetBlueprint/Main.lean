import NetBlueprint.CommandLine.Commands

/-!
Contract: the program `netc`.

Reads the files that the arguments name, runs the command and prints its report. Everything that
is decided is decided by `CommandLine.run`.
-/

namespace NetBlueprint

def fileReason : IO.Error → String
  | .noFileOrDirectory _ _ _ => "No such file or directory (os error 2)"
  | .permissionDenied _ _ _ => "Permission denied (os error 13)"
  | .inappropriateType _ _ _ => "Is a directory (os error 21)"
  | .userError _ => "stream did not contain valid UTF-8"
  | other => toString other

def readOrExplain (path : String) : IO (Except String String) := do
  try
    return .ok (← IO.FS.readFile path)
  catch error =>
    return .error (fileReason error)

def filesOf (arguments : List String) : List String :=
  match CommandLine.parse arguments with
  | .error _ => []
  | .ok invocation => invocation.config.toList ++ [invocation.command.file]

def surroundings (arguments : List String) : IO CommandLine.Surroundings := do
  let mut found : List (String × Except String String) := []
  for path in filesOf arguments do
    found := (path, ← readOrExplain path) :: found
  let table := found
  let seed ← IO.rand 0 (Nat.pow 2 64 - 1)
  return {
    contents := fun path =>
      (table.lookup path).getD (.error "No such file or directory (os error 2)")
    fallbackSeed := UInt64.ofNat seed
    compileTime := Metrics.milliseconds 0
    validateTime := Metrics.milliseconds 0 }

/-- Compiles and validates once more to measure both. -/
def measured (around : CommandLine.Surroundings) (arguments : List String) :
    IO CommandLine.Surroundings := do
  match CommandLine.parse arguments with
  | .error _ => return around
  | .ok invocation =>
    let start ← IO.monoNanosNow
    let layers := ((CommandLine.compiled? around invocation).map fun stage => stage.metrics.layers)
    let middle ← if layers.isSome then IO.monoNanosNow else pure start
    let valid := (CommandLine.compiled? around invocation).map fun stage =>
      match stage.validate 0 with
      | .ok _ => true
      | .error _ => false
    let finish ← if valid.isSome then IO.monoNanosNow else pure middle
    let compileTime := middle - start
    return { around with
      compileTime := Metrics.milliseconds compileTime
      validateTime := Metrics.milliseconds (finish - middle - compileTime) }

def runOnFiles (arguments : List String) : IO CommandLine.Report := do
  let around ← measured (← surroundings arguments) arguments
  return CommandLine.run around arguments

end NetBlueprint

def main (arguments : List String) : IO UInt32 := do
  let report ← NetBlueprint.runOnFiles arguments
  for text in report.stdout do
    IO.println text
  for text in report.stderr do
    IO.eprintln text
  return UInt32.ofNat report.code
