import SortedSetClient.Resp.Value

/-! Commands for the server: a name and its arguments in the order in which they are sent. -/
namespace SortedSetClient

structure Command where
  name : String
  args : List Bytes
deriving DecidableEq

namespace Command

/-- A keyword with its value; nothing without a value. -/
def option (keyword : String) (value : Option Bytes) : List Bytes :=
  match value with
  | some value => [Utf8.encode keyword, value]
  | none => []

/-- A keyword that stands alone, where it is wanted. -/
def flag (keyword : String) (wanted : Bool) : List Bytes :=
  if wanted then [Utf8.encode keyword] else []

/-- The name and the arguments. -/
def tokens (command : Command) : List Bytes :=
  Utf8.encode command.name :: command.args

/-- The command as the server reads it: an array of bulk strings. -/
def toValue (command : Command) : Resp.Value :=
  .array (command.tokens.map .bulk)

/-- The octets that are sent. -/
def encode (command : Command) : Bytes :=
  command.toValue.encode

/-- The command on one line, for people. -/
def text (command : Command) : String :=
  " ".intercalate (command.name :: command.args.map Utf8.decodeLossy)

end Command
end SortedSetClient
