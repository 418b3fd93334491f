import SortedSetClient.Bound

/-! What a command line may hold: positional arguments in order, options by name, and the types of
their values. -/
namespace SortedSetClient.CommandLine

/-- Why a command line is not carried out. -/
inductive Refusal where
  | badValue
  | notText
  | optionWithoutValue
  | optionRepeated
  | flagWithValue
  | unknownArgument
  | missingArgument
  | unknownSubcommand
  | missingSubcommand
  | helpAsked
  | versionAsked
  | nothingGiven
deriving DecidableEq

/-- The type of an argument. -/
inductive ValueType where
  | text
  | score
  | scoreBound
  | lexBound
  | signed
  | unsigned
deriving DecidableEq

/-- The value of an argument. -/
inductive ArgValue where
  | text (text : String)
  | score (score : Score)
  | scoreBound (bound : ScoreBound)
  | lexBound (bound : LexBound)
  | signed (n : Int64)
  | unsigned (n : UInt64)
  | given
deriving DecidableEq

namespace ValueType

def orBad {ε α : Type} (make : α → ArgValue) : Except ε α → Except Refusal ArgValue
  | .ok a => .ok (make a)
  | .error _ => .error .badValue

/-- Read an unsigned number, which may have a plus. -/
def unsigned? (text : Bytes) : Option UInt64 :=
  match Decimal.splitSign text with
  | (true, _) => none
  | (false, digits) => Decimal.uint64? digits

/-- Read the value of an argument; every type wants text. -/
def read (type : ValueType) (octets : Bytes) : Except Refusal ArgValue :=
  match Utf8.decode? octets with
  | none => .error .notText
  | some content =>
    match type with
    | .text => .ok (.text content)
    | .score => orBad .score (Score.read content)
    | .scoreBound => orBad .scoreBound (ScoreBound.read content)
    | .lexBound => orBad .lexBound (LexBound.read content)
    | .signed => (Decimal.int64? octets).elim (.error .badValue) fun n => .ok (.signed n)
    | .unsigned => (unsigned? octets).elim (.error .badValue) fun n => .ok (.unsigned n)

end ValueType

/-- A positional argument. One that admits hyphens takes tokens that look like unknown options, and
one that is repeated takes all tokens that are left. -/
structure Positional where
  name : String
  type : ValueType := .text
  hyphens : Bool := false
  repeated : Bool := false
deriving DecidableEq

/-- What an option stands for. -/
inductive OptionRole where
  | value (type : ValueType)
  | flag
  | help
  | version
deriving DecidableEq

/-- An option, by its long name and perhaps one letter. -/
structure NamedOption where
  name : String
  letter : Option UInt8 := none
  role : OptionRole
deriving DecidableEq

/-- What one level of a command line may hold. -/
structure Grammar where
  positionals : List Positional := []
  options : List NamedOption := []
  /-- The names of the level below, if there is one. -/
  subcommands : List String := []
deriving DecidableEq

namespace Grammar

def named? (grammar : Grammar) (name : Bytes) : Option NamedOption :=
  grammar.options.find? fun option => Utf8.encode option.name == name

def lettered? (grammar : Grammar) (letter : UInt8) : Option NamedOption :=
  grammar.options.find? fun option => option.letter == some letter

def subcommand? (grammar : Grammar) (token : Bytes) : Option String :=
  grammar.subcommands.find? fun name => Utf8.encode name == token

end Grammar

/-- The values of a level that have been read, in order, by the names of their arguments. -/
abbrev Values := List (String × ArgValue)

namespace Values

def text? (values : Values) (name : String) : Option String :=
  match values.lookup name with
  | some (.text text) => some text
  | _ => none

def score? (values : Values) (name : String) : Option Score :=
  match values.lookup name with
  | some (.score score) => some score
  | _ => none

def scoreBound? (values : Values) (name : String) : Option ScoreBound :=
  match values.lookup name with
  | some (.scoreBound bound) => some bound
  | _ => none

def lexBound? (values : Values) (name : String) : Option LexBound :=
  match values.lookup name with
  | some (.lexBound bound) => some bound
  | _ => none

def signed? (values : Values) (name : String) : Option Int64 :=
  match values.lookup name with
  | some (.signed n) => some n
  | _ => none

def unsigned? (values : Values) (name : String) : Option UInt64 :=
  match values.lookup name with
  | some (.unsigned n) => some n
  | _ => none

def given (values : Values) (name : String) : Bool :=
  (values.lookup name).isSome

/-- All values of an argument that is repeated. -/
def texts (values : Values) (name : String) : List String :=
  values.filterMap fun
    | (found, .text text) => if found = name then some text else none
    | _ => none

end Values
end SortedSetClient.CommandLine
