import NetBlueprint.CommandLine.Layout
import NetBlueprint.CommandLine.Options

/-!
Contract: the help of a level of the command line.

It says what the level does, how it is called, and lists its commands, arguments and options, each
list in columns of its own.
-/

namespace NetBlueprint.CommandLine

/-- How an option is written: its names and the name of its value. An option without a value that
may be given again ends in dots. -/
def OptionSpec.form (spec : OptionSpec) : String :=
  let short := match spec.short with
    | some letter => "-" ++ String.singleton letter ++ ", "
    | none => blanks 4
  let tail := match spec.value with
    | some value => " <" ++ value.name ++ ">"
    | none => if spec.repeatable then "..." else ""
  short ++ "--" ++ spec.long ++ tail

def Level.usage (level : Level) : String :=
  let words := if level = .program then [] else [level.name]
  let options := if level.options.isEmpty then [] else ["[OPTIONS]"]
  let tail := if level = .program then ["<COMMAND>"] else level.arguments.map Prod.fst
  "Usage: " ++ String.intercalate " " (Level.program.name :: words ++ options ++ tail)

/-- A list with its heading and a blank line before it; nothing where the list is empty. -/
def listing (heading : String) (rows : List (String × String)) : List String :=
  if rows.isEmpty then [] else "" :: (heading ++ ":") :: twoColumns rows

def Level.page (level : Level) : List String :=
  let commands := if level = .program then Level.commands else []
  [level.summary, "", level.usage]
    ++ listing "Commands" (commands.map fun command => (command.name, command.summary))
    ++ listing "Arguments" level.arguments
    ++ listing "Options" (level.options.map fun spec => (spec.form, spec.summary))

end NetBlueprint.CommandLine
