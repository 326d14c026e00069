import NetBlueprint.CommandLine.Options

/-!
Contract: reading the arguments of the command line.

Arguments are read from the left, and the first that is at fault, or that asks for the version or
for help, ends the reading. A value follows its option or is attached to it; a following value
never starts with a hyphen. An option given twice, a missing value and an unknown option are usage
errors. The options of the program may also stand after the command, where they win.
-/

namespace NetBlueprint.CommandLine

/-- Why no command is run: the arguments are at fault, or the version or the help of a level is
asked for. -/
inductive Stop where
  | usage
  | version
  | help (level : Level)
deriving DecidableEq, Repr

/-- The level that is read, and its options and positional arguments met so far, the last first. -/
structure Scanned where
  level : Level
  given : List (String × String)
  positional : List String
deriving DecidableEq, Repr

namespace Scanned

def value? (scanned : Scanned) (long : String) : Option String :=
  scanned.given.lookup long

def has (scanned : Scanned) (long : String) : Bool :=
  (scanned.value? long).isSome

def values (scanned : Scanned) (long : String) : List String :=
  (scanned.given.reverse.filter fun entry => entry.1 == long).map Prod.snd

/-- Decides whether an option can be given with a value. -/
def admits (scanned : Scanned) (spec : OptionSpec) (value : String) : Bool :=
  (spec.repeatable || !scanned.has spec.long)
    && spec.value.all fun taken => taken.kind.accepts value

def give (scanned : Scanned) (spec : OptionSpec) (value : String) : Except Stop Scanned :=
  if spec = versionOption then .error .version
  else if spec = helpOption then .error (.help scanned.level)
  else if scanned.admits spec value then
    .ok { scanned with given := (spec.long, value) :: scanned.given }
  else .error .usage

/-- Records a positional argument. A command takes one: the file it works on. -/
def place (scanned : Scanned) (argument : String) : Except Stop Scanned :=
  if scanned.positional.isEmpty && !argument.isEmpty then
    .ok { scanned with positional := [argument] }
  else .error .usage

end Scanned

/-- Decides whether an argument can be the value of the option before it. -/
def isPlain (argument : String) : Bool :=
  match argument.toList with
  | '-' :: _ :: _ => false
  | _ => true

/-- Takes the value of an option: the attached one, or the next argument. -/
def takeValue (scanned : Scanned) (spec : OptionSpec) (attached : Option String)
    (rest : List String) : Except Stop (Scanned × List String) :=
  match attached, rest with
  | some value, _ => (scanned.give spec value).map fun next => (next, rest)
  | none, argument :: others =>
    if isPlain argument then (scanned.give spec argument).map fun next => (next, others)
    else .error .usage
  | none, [] => .error .usage

def scanLong (scanned : Scanned) (body : List Char) (rest : List String) :
    Except Stop (Scanned × List String) :=
  let name := String.ofList (body.takeWhile (· != '='))
  let attached := match body.dropWhile (· != '=') with
    | [] => none
    | _ :: value => some (String.ofList value)
  match scanned.level.options.find? fun spec => spec.long == name with
  | none => .error .usage
  | some spec =>
    if spec.value.isSome then takeValue scanned spec attached rest
    else if attached.isSome then .error .usage
    else (scanned.give spec "").map fun next => (next, rest)

/-- Reads short options that share one hyphen; the first that takes a value takes what follows. -/
def scanShort (scanned : Scanned) (rest : List String) :
    List Char → Except Stop (Scanned × List String)
  | [] => .ok (scanned, rest)
  | letter :: letters =>
    match scanned.level.options.find? fun spec => spec.short == some letter with
    | none => .error .usage
    | some spec =>
      if spec.value.isSome then
        let attached := match letters with
          | [] => none
          | '=' :: value => some (String.ofList value)
          | value => some (String.ofList value)
        takeValue scanned spec attached rest
      else
        match scanned.give spec "" with
        | .error stop => .error stop
        | .ok next => scanShort next rest letters

/-- Reads the arguments of a level. At the level of the program the first positional argument ends
it, and the arguments from there on are returned. The budget bounds the number of arguments. -/
def scan : Nat → Scanned → List String → Except Stop (Scanned × List String)
  | 0, scanned, rest => .ok (scanned, rest)
  | _ + 1, scanned, [] => .ok (scanned, [])
  | budget + 1, scanned, argument :: rest =>
    match argument.toList with
    | ['-', '-'] =>
      if scanned.level = .program then .error .usage
      else (rest.foldlM Scanned.place scanned).map fun next => (next, [])
    | '-' :: '-' :: body =>
      match scanLong scanned body rest with
      | .error stop => .error stop
      | .ok (next, others) => scan budget next others
    | '-' :: letter :: letters =>
      match scanShort scanned rest (letter :: letters) with
      | .error stop => .error stop
      | .ok (next, others) => scan budget next others
    | _ =>
      if scanned.level = .program then .ok (scanned, argument :: rest)
      else
        match scanned.place argument with
        | .error stop => .error stop
        | .ok next => scan budget next rest

def scanLevel (level : Level) (arguments : List String) : Except Stop (Scanned × List String) :=
  scan (arguments.length + 1) ⟨level, [], []⟩ arguments

/-! ## Commands -/

inductive Command where
  | compile (file : String) (level : Option String) (trace : Bool) (seed : Option UInt64)
  | inspect (file : String)
  | eval (file : String) (inputs : List String) (mode : Option String) (json : Bool)
deriving DecidableEq, Repr

structure Invocation where
  config : Option String
  command : Command
deriving DecidableEq, Repr

def Command.file : Command → String
  | .compile file _ _ _ => file
  | .inspect file => file
  | .eval file _ _ _ => file

/-- The file a command is to work on, which has to be given. -/
def fileOf (scanned : Scanned) : Except Stop String :=
  match scanned.positional with
  | [file] => .ok file
  | _ => .error .usage

def seedOf (scanned : Scanned) : Option UInt64 :=
  ((scanned.value? "seed").bind fun text => Text.readUnsigned? text.toList).map UInt64.ofNat

def helpTopic : List String → Option Level
  | [] => some .program
  | [name] => Level.ofName? name
  | _ => none

def commandOf (level : Level) (arguments : List String) :
    Except Stop (Command × Option String) :=
  match level with
  | .program => .error .usage
  | .help =>
    match helpTopic arguments with
    | some topic => .error (.help topic)
    | none => .error .usage
  | _ =>
    match scanLevel level arguments with
    | .error stop => .error stop
    | .ok (scanned, _) =>
      (fileOf scanned).map fun file =>
        let command : Command := match level with
          | .compile =>
            .compile file (scanned.value? "level") (scanned.has "trace") (seedOf scanned)
          | .eval =>
            .eval file (scanned.values "input") (scanned.value? "mode") (scanned.has "json")
          | _ => .inspect file
        (command, scanned.value? "config")

/-- Reads all arguments. -/
def parse (arguments : List String) : Except Stop Invocation :=
  match scanLevel .program arguments with
  | .error stop => .error stop
  | .ok (_, []) => .error .usage
  | .ok (scanned, name :: rest) =>
    match Level.ofName? name with
    | none => .error .usage
    | some level =>
      (commandOf level rest).map fun (command, config) =>
        ⟨config.or (scanned.value? "config"), command⟩

end NetBlueprint.CommandLine
