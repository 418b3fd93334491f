import SortedSetClient.CommandLine.Subcommand

/-! A whole command line: options for the program, the name of a subcommand, and its arguments. -/
namespace SortedSetClient.CommandLine

structure Invocation where
  /-- The file that holds the configuration. -/
  config : Option String
  /-- The address of the server, in place of the configured one. -/
  address : Option String
  request : Request
deriving DecidableEq

namespace Invocation

/-- The options before the subcommand. -/
def grammar : Grammar where
  options :=
    [{ name := "config", letter := some 0x63, role := .value .text },
      { name := "addr", letter := some 0x61, role := .value .text },
      { name := "help", letter := some 0x68, role := .help },
      { name := "version", letter := some 0x56, role := .version }]
  subcommands := Subcommand.all.map (·.name) ++ ["help"]

/-- Help may be asked for the program or for one subcommand. -/
def refuseHelp : List Bytes → Refusal
  | [] => .helpAsked
  | [topic] => if (grammar.subcommand? topic).isSome then .helpAsked else .unknownSubcommand
  | _ => .unknownSubcommand

/-- Read the arguments of the program. The subcommand is judged whole before a value that is still
pending in front of it. -/
def read (args : List Bytes) : Except Refusal Invocation := do
  match ← Scan.takeTokens grammar { positionals := [] } args with
  | (scan, some (name, rest)) =>
    match Subcommand.all.find? (·.name = name) with
    | none => .error (refuseHelp rest)
    | some subcommand =>
      let request ← subcommand.read rest
      let values ← scan.values?
      return { config := values.text? "config", address := values.text? "addr", request }
  | (scan, none) =>
    let values ← scan.values?
    if values.isEmpty then .error .nothingGiven else .error .missingSubcommand

end Invocation
end SortedSetClient.CommandLine
