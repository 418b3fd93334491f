import SortedSetClient.Bound
import SortedSetClient.Command
import SortedSetClient.Reply

/-! The operations on sorted sets. Each judges its own arguments, names the command that it sends
and says what the reply means; whoever carries commands to a server need not know operations. -/
namespace SortedSetClient
open Resp (Value)

/-- In which order of scores members are counted and listed. -/
inductive Direction where
  | ascending
  | descending
deriving DecidableEq

/-- How several sets would become one. -/
inductive Combination where
  | intersection
  | union
deriving DecidableEq

/-- The name of the command that would do it. No such command is ever sent. -/
def Combination.command : Combination → String
  | intersection => "ZINTERSTORE"
  | union => "ZUNIONSTORE"

/-- What a query by score asks beside its bounds. -/
structure RangeOptions where
  withScores : Bool := false
  offset : Option Int64 := none
  count : Option Int64 := none
deriving DecidableEq

inductive Operation where
  | add (key : Bytes) (score : Score) (member : Bytes) (more : List (Score × Bytes))
  | card (key : Bytes)
  | countByScore (key : Bytes) (min max : ScoreBound)
  | increment (key : Bytes) (amount : Score) (member : Bytes)
  | combine (how : Combination) (destination : Bytes) (keys : List Bytes)
  | countByLex (key : Bytes) (min max : LexBound)
  | range (direction : Direction) (key : Bytes) (start stop : Int64) (withScores : Bool)
  | rangeByLex (key : Bytes) (min max : LexBound) (offset count : Option Int64)
  | rangeByScore (direction : Direction) (key : Bytes) (min max : ScoreBound)
      (options : RangeOptions)
  | rank (direction : Direction) (key member : Bytes)
  | remove (key member : Bytes) (more : List Bytes)
  | removeByLex (key : Bytes) (min max : LexBound)
  | removeByRank (key : Bytes) (start stop : Int64)
  | removeByScore (key : Bytes) (min max : ScoreBound)
  | scoreOf (key member : Bytes)
  | scan (key : Bytes) (cursor : UInt64) (pattern : Option Bytes) (count : Option Int64)
deriving DecidableEq

/-- What an operation answers. -/
inductive Answer where
  | integer (n : Int64)
  | place (rank : Option Int64)
  | score (score : Score)
  | scoreOf (score : Option Score)
  | members (members : List Bytes)
  | listing (listing : Listing)
  | page (cursor : UInt64) (entries : List Entry)
deriving DecidableEq

namespace Operation

/-- Offset and count are given together or not at all. -/
def checkLimit : Option Int64 → Option Int64 → Except Error (Option (Int64 × Int64))
  | some offset, some count => .ok (some (offset, count))
  | none, none => .ok none
  | _, _ => .error (.invalidArgument .halfLimit)

/-- Refuse bounds that are no numbers, the lower one first. -/
def checkBounds (min max : ScoreBound) : Except Error Unit := do
  min.score.check .min
  max.score.check .max

/-- Refuse arguments that could not be sent, the first fault first. -/
def check : Operation → Except Error Unit
  | add _ score _ more => do
    score.check .score
    more.forM fun (score, _) => score.check .allScores
  | countByScore _ min max => do
    checkBounds min max
    if min.score.gt max.score then .error (.invalidRange .minAboveMax)
  | increment _ amount _ => amount.check .increment
  | combine how .. => .error (.notImplemented how.command)
  | rangeByLex _ _ _ offset count => (checkLimit offset count).map fun _ => ()
  | rangeByScore _ _ min max options => do
    checkBounds min max
    (checkLimit options.offset options.count).map fun _ => ()
  | removeByScore _ min max => checkBounds min max
  | _ => .ok ()

/-- The part of a list that is asked for. -/
def limitArgs : Option Int64 → Option Int64 → List Bytes
  | some offset, some count =>
    [Utf8.encode "LIMIT", Decimal.ofInt64 offset, Decimal.ofInt64 count]
  | _, _ => []

/-- The name of a command that exists for both directions. -/
def directed (direction : Direction) (ascending descending : String) : String :=
  match direction with
  | .ascending => ascending
  | .descending => descending

/-- Two bounds by score, the one where the direction begins first. -/
def boundArgs (direction : Direction) (min max : ScoreBound) : List Bytes :=
  match direction with
  | .ascending => [min.encode, max.encode]
  | .descending => [max.encode, min.encode]

/-- The command of an operation whose arguments can be sent. There is none for combining sets: it is
left empty here, and `check` refuses the operation before a command is asked for. -/
def toCommand : Operation → Command
  | add key score member more =>
    ⟨"ZADD", key :: score.encode :: member ::
      more.flatMap fun (score, member) => [score.encode, member]⟩
  | card key => ⟨"ZCARD", [key]⟩
  | countByScore key min max => ⟨"ZCOUNT", key :: boundArgs .ascending min max⟩
  | increment key amount member => ⟨"ZINCRBY", [key, amount.encode, member]⟩
  | combine .. => ⟨"", []⟩
  | countByLex key min max => ⟨"ZLEXCOUNT", [key, min.encodeMin, max.encodeMax]⟩
  | range direction key start stop withScores =>
    ⟨directed direction "ZRANGE" "ZREVRANGE",
      [key, Decimal.ofInt64 start, Decimal.ofInt64 stop] ++ Command.flag "WITHSCORES" withScores⟩
  | rangeByLex key min max offset count =>
    ⟨"ZRANGEBYLEX", [key, min.encodeMin, max.encodeMax] ++ limitArgs offset count⟩
  | rangeByScore direction key min max options =>
    ⟨directed direction "ZRANGEBYSCORE" "ZREVRANGEBYSCORE",
      key :: boundArgs direction min max ++ Command.flag "WITHSCORES" options.withScores ++
        limitArgs options.offset options.count⟩
  | rank direction key member => ⟨directed direction "ZRANK" "ZREVRANK", [key, member]⟩
  | remove key member more => ⟨"ZREM", key :: member :: more⟩
  | removeByLex key min max => ⟨"ZREMRANGEBYLEX", [key, min.encodeMin, max.encodeMax]⟩
  | removeByRank key start stop =>
    ⟨"ZREMRANGEBYRANK", [key, Decimal.ofInt64 start, Decimal.ofInt64 stop]⟩
  | removeByScore key min max => ⟨"ZREMRANGEBYSCORE", key :: boundArgs .ascending min max⟩
  | scoreOf key member => ⟨"ZSCORE", [key, member]⟩
  | scan key cursor pattern count =>
    ⟨"ZSCAN", [key, Decimal.ofUInt64 cursor] ++ Command.option "MATCH" pattern ++
      Command.option "COUNT" (count.map Decimal.ofInt64)⟩

/-- What the reply to an operation means. Combining sets is refused whatever the reply. -/
def decode : Operation → Value → Except Error Answer
  | add .., reply | card .., reply | countByScore .., reply | countByLex .., reply
  | remove .., reply | removeByLex .., reply | removeByRank .., reply | removeByScore .., reply =>
    (Reply.integer reply).map .integer
  | combine how .., _ => .error (.notImplemented how.command)
  | increment .., reply => (Reply.score reply).map .score
  | scoreOf .., reply => (Reply.optionalScore reply).map .scoreOf
  | rank .., reply => (Reply.optionalInteger reply).map .place
  | range _ _ _ _ withScores, reply => (Reply.listing withScores reply).map .listing
  | rangeByScore _ _ _ _ options, reply =>
    (Reply.listing options.withScores reply).map .listing
  | rangeByLex .., reply => (Reply.members reply).map .members
  | scan .., reply => (Reply.page reply).map fun (cursor, entries) => .page cursor entries

variable {m : Type → Type} [Monad m]

/-- Carry out an operation with whatever carries commands. Nothing is sent for one whose arguments
are refused, and one command for any other. -/
def run (execute : Command → m (Except Error Value)) (operation : Operation) :
    m (Except Error Answer) :=
  match operation.check with
  | .error error => pure (.error error)
  | .ok () => do
    match ← execute operation.toCommand with
    | .error error => pure (.error error)
    | .ok reply => pure (operation.decode reply)

end Operation
end SortedSetClient
