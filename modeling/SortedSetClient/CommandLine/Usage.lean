import SortedSetClient.CommandLine.Invocation

/-! What is said to someone who asks how the program is used, or whose command line is refused. -/
namespace SortedSetClient.CommandLine

/-- A positional argument in a summary. -/
def Positional.summary (positional : Positional) : String :=
  "<" ++ positional.name.toUpper ++ ">" ++ if positional.repeated then "..." else ""

/-- An option in a summary. -/
def NamedOption.summary (option : NamedOption) : String :=
  match option.role with
  | .value _ => "[--" ++ option.name ++ " <" ++ option.name.toUpper ++ ">]"
  | _ => "[--" ++ option.name ++ "]"

/-- One line on a subcommand. -/
def Subcommand.summary (subcommand : Subcommand) : String :=
  " ".intercalate (subcommand.name :: subcommand.grammar.options.map (·.summary) ++
    subcommand.grammar.positionals.map (·.summary))

/-- How the program is used. -/
def usage : String :=
  "Usage: zsetcli " ++ " ".intercalate (Invocation.grammar.options.map (·.summary)) ++
    " <COMMAND>\n\nCommands:\n" ++
    String.join (Subcommand.all.map fun subcommand => "  " ++ subcommand.summary ++ "\n")

namespace Refusal

/-- What is wrong with a command line. -/
def reason : Refusal → String
  | badValue => "invalid value for an argument"
  | notText => "invalid UTF-8 in an argument"
  | optionWithoutValue => "a value is required for an option"
  | optionRepeated => "an option is given more than once"
  | flagWithValue => "unexpected value for an option"
  | unknownArgument => "unexpected argument"
  | missingArgument => "a required argument is missing"
  | unknownSubcommand => "unrecognized subcommand"
  | missingSubcommand => "a subcommand is required"
  | helpAsked | versionAsked | nothingGiven => ""

/-- The text printed in place of an answer. -/
def text : Refusal → String
  | helpAsked | nothingGiven => usage
  | versionAsked => "zsetcli 0.1.0\n"
  | refusal => "error: " ++ refusal.reason ++ "\n\n" ++ usage

end Refusal
end SortedSetClient.CommandLine
