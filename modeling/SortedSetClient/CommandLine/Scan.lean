import SortedSetClient.CommandLine.Grammar

/-! Reading the tokens of one level of a command line, up to the name of a subcommand. Values are
collected for one argument at a time and judged when the next argument begins, so of two faults the
one whose argument ends first is reported. -/
namespace SortedSetClient.CommandLine

/-- The argument whose values are being collected. -/
inductive Slot where
  | option (option : NamedOption)
  | positional (positional : Positional)
deriving DecidableEq

/-- Values collected but not yet judged. -/
structure Pending where
  slot : Slot
  /-- The values, the latest first. -/
  tokens : List Bytes := []
  /-- Whether the next token may belong here too. -/
  accepting : Bool
deriving DecidableEq

/-- How far a level has been read. -/
structure Scan where
  values : Values := []
  pending : Option Pending := none
  /-- The positional arguments still to come. -/
  positionals : List Positional
  /-- Whether only positional arguments follow. -/
  trailing : Bool := false
deriving DecidableEq

namespace Scan

/-! ### Judging values -/

/-- Judge an option with the values given to it. -/
def recordOption (scan : Scan) (option : NamedOption) (tokens : List Bytes) :
    Except Refusal Scan :=
  match option.role, tokens with
  | .help, _ => .error .helpAsked
  | .version, _ => .error .versionAsked
  | .value _, [] => .error .optionWithoutValue
  | role, tokens =>
    if scan.values.given option.name then .error .optionRepeated
    else
      match role, tokens with
      | .value type, token :: _ => do
        let value ← type.read token
        return { scan with values := scan.values ++ [(option.name, value)] }
      | _, _ => .ok { scan with values := scan.values ++ [(option.name, .given)] }

/-- Judge a positional argument with the values given to it. -/
def recordPositional (scan : Scan) (positional : Positional) (tokens : List Bytes) :
    Except Refusal Scan := do
  let values ← tokens.mapM positional.type.read
  return { scan with values := scan.values ++ values.map (positional.name, ·) }

/-- Judge the values that are pending. -/
def settle (scan : Scan) : Except Refusal Scan :=
  match scan.pending with
  | none => .ok scan
  | some ⟨.option option, tokens, _⟩ =>
    recordOption { scan with pending := none } option tokens.reverse
  | some ⟨.positional positional, tokens, _⟩ =>
    recordPositional { scan with pending := none } positional tokens.reverse

/-- An option that is complete as it stands. -/
def completeOption (scan : Scan) (option : NamedOption) (tokens : List Bytes) :
    Except Refusal Scan := do
  recordOption (← scan.settle) option tokens

/-- An option that awaits its value. -/
def awaitValue (scan : Scan) (option : NamedOption) : Except Refusal Scan := do
  return { ← scan.settle with pending := some { slot := .option option, accepting := true } }

/-! ### Reading tokens -/

/-- Whether a repeated argument that admits hyphens is taking all tokens. -/
def takesHyphens (scan : Scan) : Bool :=
  match scan.pending with
  | some ⟨.positional positional, _, true⟩ => positional.hyphens
  | _ => false

/-- Whether the next positional argument admits hyphens. -/
def admitsHyphens (scan : Scan) : Bool :=
  match scan.positionals with
  | positional :: _ => positional.hyphens
  | [] => false

/-- Whether a token may name a subcommand: not while an argument is taking values. -/
def admitsSubcommand (scan : Scan) : Bool :=
  !scan.trailing && !(scan.pending.any (·.accepting))

/-- Why a token that no positional argument is left for is refused. -/
def surplus (grammar : Grammar) (scan : Scan) (token : Bytes) : Refusal :=
  if grammar.subcommands.isEmpty then .unknownArgument
  else if scan.trailing && (grammar.subcommand? token).isSome then .unknownArgument
  else .unknownSubcommand

/-- A token for the next positional argument. -/
def takePositional (grammar : Grammar) (scan : Scan) (token : Bytes) : Except Refusal Scan :=
  match scan.positionals with
  | [] => .error (surplus grammar scan token)
  | positional :: rest =>
    let positionals := if positional.repeated then positional :: rest else rest
    let next (scan : Scan) (tokens : List Bytes) : Scan :=
      { scan with
        pending := some ⟨.positional positional, token :: tokens, positional.repeated⟩
        positionals }
    match scan.pending with
    | some ⟨.positional pending, tokens, _⟩ =>
      if pending = positional ∧ positional.repeated then .ok (next scan tokens)
      else scan.settle.map (next · [])
    | _ => scan.settle.map (next · [])

/-- A token that is a value, of an option that awaits one or else of a positional argument. -/
def takeValue (grammar : Grammar) (scan : Scan) (token : Bytes) : Except Refusal Scan :=
  match scan.pending with
  | some ⟨.option option, tokens, true⟩ =>
    .ok { scan with pending := some ⟨.option option, token :: tokens, false⟩ }
  | _ => takePositional grammar scan token

/-- Split the text after two hyphens at the first equals sign. -/
def splitAttached (text : Bytes) : Bytes × Option Bytes :=
  match text.span (· != 0x3d) with
  | (name, _ :: value) => (name, some value)
  | (name, []) => (name, none)

/-- A token with two hyphens and a name. -/
def takeLong (grammar : Grammar) (scan : Scan) (token text : Bytes) : Except Refusal Scan :=
  if scan.takesHyphens then takeValue grammar scan token
  else
    let (name, attached) := splitAttached text
    match grammar.named? name with
    | some option =>
      match option.role, attached with
      | .value _, some value => scan.completeOption option [value]
      | .value _, none => scan.awaitValue option
      | _, some _ => .error .flagWithValue
      | _, none => scan.completeOption option []
    | none =>
      if scan.admitsHyphens && (Utf8.decode? name).isSome then takeValue grammar scan token
      else .error .unknownArgument

/-- The letters after one hyphen. A value may follow its letter at once, behind an equals sign or
not. -/
def takeLetters (grammar : Grammar) (scan : Scan) : Bytes → Except Refusal Scan
  | [] => .ok scan
  | letter :: rest =>
    match grammar.lettered? letter with
    | none => .error .unknownArgument
    | some option =>
      match option.role, rest with
      | .value _, [] => scan.awaitValue option
      | .value _, 0x3d :: value => scan.completeOption option [value]
      | .value _, value => scan.completeOption option [value]
      | _, rest => do takeLetters grammar (← scan.completeOption option []) rest

/-- A token with one hyphen and letters. -/
def takeShort (grammar : Grammar) (scan : Scan) (token letters : Bytes) : Except Refusal Scan :=
  if scan.takesHyphens then takeValue grammar scan token
  else if scan.admitsHyphens && letters.any fun letter => (grammar.lettered? letter).isNone then
    takeValue grammar scan token
  else takeLetters grammar scan letters

/-- Read one token. After two hyphens alone only positional arguments follow. -/
def takeToken (grammar : Grammar) (scan : Scan) (token : Bytes) : Except Refusal Scan :=
  if scan.trailing then takePositional grammar scan token
  else
    match token with
    | [0x2d, 0x2d] =>
      if scan.takesHyphens then takeValue grammar scan token
      else .ok { scan with trailing := true }
    | 0x2d :: 0x2d :: text => takeLong grammar scan token text
    | 0x2d :: letter :: letters => takeShort grammar scan token (letter :: letters)
    | _ => takeValue grammar scan token

/-- Read tokens up to the name of a subcommand, which is given with the tokens after it. -/
def takeTokens (grammar : Grammar) (scan : Scan) :
    List Bytes → Except Refusal (Scan × Option (String × List Bytes))
  | [] => .ok (scan, none)
  | token :: tokens =>
    match if scan.admitsSubcommand then grammar.subcommand? token else none with
    | some name => .ok (scan, some (name, tokens))
    | none => do takeTokens grammar (← takeToken grammar scan token) tokens

/-- The values of one level, all judged. -/
def values? (scan : Scan) : Except Refusal Values :=
  scan.settle.map (·.values)

end Scan

/-- Read the tokens of a level that has no subcommands. -/
def Grammar.read (grammar : Grammar) (tokens : List Bytes) : Except Refusal Values := do
  let (scan, _) ← Scan.takeTokens grammar { positionals := grammar.positionals } tokens
  scan.values?

end SortedSetClient.CommandLine
