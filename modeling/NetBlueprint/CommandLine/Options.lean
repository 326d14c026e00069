import NetBlueprint.Text.Integer

/-!
Contract: the levels of the command line and the options of each.

The program has a level of its own and one for each command. Options stand in the order in which
the help of their level lists them.
-/

namespace NetBlueprint.CommandLine

/-- What the value of an option has to be: any text, a path that is not empty, or a number that
fits unsigned 64 bits. -/
inductive ValueKind where
  | text
  | path
  | unsigned
deriving DecidableEq, Repr

def ValueKind.accepts : ValueKind → String → Bool
  | .text, _ => true
  | .path, value => !value.isEmpty
  | .unsigned, value => (Text.readUnsigned? value.toList).isSome

structure ValueSpec where
  kind : ValueKind
  name : String
deriving DecidableEq, Repr

/-- An option: its names, the value it takes, whether it may be given again, and what it does. -/
structure OptionSpec where
  long : String
  short : Option Char
  value : Option ValueSpec
  repeatable : Bool
  summary : String
deriving DecidableEq, Repr

def configOption : OptionSpec :=
  ⟨"config", some 'c', some ⟨.path, "CONFIG"⟩, false,
    "Path to a TOML pipeline configuration file"⟩

def verboseOption : OptionSpec :=
  ⟨"verbose", some 'v', none, true, "Enable verbose logging (repeat for more: -v, -vv, -vvv)"⟩

def helpOption : OptionSpec :=
  ⟨"help", some 'h', none, false, "Print help"⟩

def versionOption : OptionSpec :=
  ⟨"version", some 'V', none, false, "Print version"⟩

def levelOption : OptionSpec :=
  ⟨"level", some 'l', some ⟨.text, "LEVEL"⟩, false,
    "Validation level: none, structural, shapes"⟩

def traceOption : OptionSpec :=
  ⟨"trace", none, none, false, "Print the compile trace"⟩

def seedOption : OptionSpec :=
  ⟨"seed", none, some ⟨.unsigned, "SEED"⟩, false, "Seed for hygiene suffixes"⟩

def inputOption : OptionSpec :=
  ⟨"input", some 'i', some ⟨.text, "NAME=VALUES"⟩, true,
    "Input values as `name=v1,v2,...` (repeatable)"⟩

def modeOption : OptionSpec :=
  ⟨"mode", some 'm', some ⟨.text, "MODE"⟩, false, "Module evaluation mode: parallel, chained"⟩

def jsonOption : OptionSpec :=
  ⟨"json", none, none, false, "Print the outputs as JSON only"⟩

/-- A level of the command line: the program itself, or one of its commands. -/
inductive Level where
  | program
  | compile
  | inspect
  | eval
  | help
deriving DecidableEq, Repr

namespace Level

/-- The levels below the program, in the order in which its help lists them. -/
def commands : List Level := [.compile, .inspect, .eval, .help]

def name : Level → String
  | .program => "netc"
  | .compile => "compile"
  | .inspect => "inspect"
  | .eval => "eval"
  | .help => "help"

def ofName? (word : String) : Option Level :=
  commands.find? fun level => level.name == word

def summary : Level → String
  | .program => "Compiler for declarative neural-network definition programs"
  | .compile => "Compile a JSON instruction tree and validate the result"
  | .inspect => "Print every compiled layer with its kind, edges and inferred shape"
  | .eval => "Evaluate the compiled network on the given inputs"
  | .help => "Print this message or the help of the given subcommand(s)"

def options : Level → List OptionSpec
  | .program => [configOption, verboseOption, helpOption, versionOption]
  | .compile =>
    [configOption, levelOption, traceOption, verboseOption, seedOption, helpOption]
  | .inspect => [configOption, verboseOption, helpOption]
  | .eval => [configOption, inputOption, modeOption, verboseOption, jsonOption, helpOption]
  | .help => []

/-- The positional arguments of a level, each with what it is. -/
def arguments : Level → List (String × String)
  | .program => []
  | .help => [("[COMMAND]...", "Print help for the subcommand(s)")]
  | _ => [("<FILE>", "Path to the program (JSON instruction tree)")]

end Level

end NetBlueprint.CommandLine
