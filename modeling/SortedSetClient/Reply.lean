import SortedSetClient.Listing

/-! What a reply means to the operation that asked. An error reply is the server's own refusal; any
other value of the wrong shape is unexpected, and a list fails as a whole. -/
namespace SortedSetClient.Reply
open Resp (Value)

def unexpected {α : Type} (expected : ReplyShape) (got : Value) : Except Error α :=
  .error (.unexpectedReply (.mismatch expected got))

/-- A value that is no error reply. -/
def accepted : Value → Except Error Value
  | .error text => .error (.server text)
  | value => .ok value

/-- The octets of a value that carries text. -/
def textual? : Value → Option Bytes
  | .bulk data => some data
  | .simple text => some (Utf8.encode text)
  | _ => none

/-- A score written as text. -/
def scoreText (value : Value) : Except Error Score :=
  match textual? value with
  | none => unexpected .textualScore value
  | some text =>
    match Score.ofText? text with
    | some score => .ok score
    | none => .error (.unexpectedReply (.notANumber text))

/-- A value, or nothing where the reply is nil. -/
def optional {α : Type} (read : Value → Except Error α) (value : Value) :
    Except Error (Option α) := do
  let value ← accepted value
  if value.isNil then return none else return some (← read value)

def score (value : Value) : Except Error Score :=
  accepted value >>= scoreText

/-- The score of a member that may be absent. -/
def optionalScore : Value → Except Error (Option Score) := optional scoreText

def asInteger : Value → Except Error Int64
  | .integer n => .ok n
  | value => unexpected .integer value

def integer (value : Value) : Except Error Int64 :=
  accepted value >>= asInteger

/-- The place of a member that may be absent. -/
def optionalInteger : Value → Except Error (Option Int64) := optional asInteger

/-- One member of a list. -/
def member (value : Value) : Except Error Bytes :=
  match textual? value with
  | some text => .ok text
  | none => unexpected .member value

def asItems : Value → Except Error (List Value)
  | .array items => .ok items
  | .nilArray => .ok []
  | value => unexpected .array value

/-- The items of an array; a nil array has none. -/
def items (value : Value) : Except Error (List Value) :=
  accepted value >>= asItems

/-- A list of members. -/
def members (value : Value) : Except Error (List Bytes) := do
  (← items value).mapM member

/-- The entries of alternating members and scores, behind those already read. The score is judged
before its member, and a last member without a score is left out. -/
def entriesOnto (read : List Entry) : List Value → Except Error (List Entry)
  | name :: number :: rest => do
    let score ← scoreText number
    let member ← member name
    entriesOnto ((member, score) :: read) rest
  | _ => .ok read.reverse

/-- A list of members and scores in turn. -/
def entries (value : Value) : Except Error (List Entry) := do
  entriesOnto [] (← items value)

/-- The cursor of a page, in digits alone. -/
def cursor (value : Value) : Except Error UInt64 :=
  match (textual? value).bind Decimal.uint64? with
  | some n => .ok n
  | none => unexpected .numericCursor value

/-- One page of a scan: the cursor that continues it, and its entries. -/
def page (value : Value) : Except Error (UInt64 × List Entry) := do
  match ← items value with
  | [next, list] => return (← cursor next, ← entries list)
  | items => .error (.unexpectedReply (.pageLength items.length))

/-- The listing of a query, with scores if it asked for them. -/
def listing (withScores : Bool) (value : Value) : Except Error Listing :=
  if withScores then (entries value).map .scored else (members value).map .members

end SortedSetClient.Reply
