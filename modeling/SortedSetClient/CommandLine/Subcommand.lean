import SortedSetClient.CommandLine.Scan
import SortedSetClient.Operation

/-! The subcommands: for each its arguments, and what is asked for by their values. An argument left
out has a default, or else the command line is incomplete. -/
namespace SortedSetClient.CommandLine

/-- What a command line asks for. The scores of further pairs are text until the request is made. -/
inductive Request where
  | add (key : String) (score : Score) (member : String) (pairs : List String)
  | call (operation : Operation)
deriving DecidableEq

namespace Request

/-- The texts of a list two by two. -/
def pairUp : List String → List (String × String)
  | a :: b :: rest => (a, b) :: pairUp rest
  | _ => []

/-- Scores and members in turn. That they are even in number is judged before any score. -/
def readPairs (texts : List String) : Except Error (List (Score × Bytes)) :=
  if texts.length % 2 = 1 then .error (.invalidArgument .unpairedScore)
  else (pairUp texts).mapM fun (score, member) => do return (← Score.read score, Utf8.encode member)

def toOperation : Request → Except Error Operation
  | add key score member pairs => do
    return .add (Utf8.encode key) score (Utf8.encode member) (← readPairs pairs)
  | call operation => .ok operation

variable {m : Type → Type} [Monad m]

/-- Carry out a request with whatever carries commands. -/
def run (execute : Command → m (Except Error Resp.Value)) (request : Request) :
    m (Except Error Answer) :=
  match request.toOperation with
  | .error error => pure (.error error)
  | .ok operation => operation.run execute

end Request

structure Subcommand where
  name : String
  grammar : Grammar
  /-- The request of complete values. -/
  request? : Values → Option Request

namespace Subcommand

/-! ### Arguments that several subcommands have -/

def key : Positional := { name := "key" }

def member : Positional := { name := "member" }

def hyphened (name : String) (type : ValueType) : Positional :=
  { name, type, hyphens := true }

def help : NamedOption := { name := "help", letter := some 0x68, role := .help }

def withScores : NamedOption := { name := "withscores", role := .flag }

def offset : NamedOption := { name := "offset", role := .value .signed }

def count : NamedOption := { name := "count", role := .value .signed }

def pattern : NamedOption := { name := "match", role := .value .text }

def minScore : Positional := hyphened "min" .scoreBound

def maxScore : Positional := hyphened "max" .scoreBound

def minLex : Positional := hyphened "min" .lexBound

def maxLex : Positional := hyphened "max" .lexBound

def start : Positional := hyphened "start" .signed

def stop : Positional := hyphened "stop" .signed

/-! ### Their values, or what stands in for those left out -/

def keyOf (values : Values) : Option Bytes :=
  (values.text? "key").map Utf8.encode

def memberOf (values : Values) : Option Bytes :=
  (values.text? "member").map Utf8.encode

def minScoreOf (values : Values) : ScoreBound :=
  (values.scoreBound? "min").getD .negInf

def maxScoreOf (values : Values) : ScoreBound :=
  (values.scoreBound? "max").getD .posInf

def minLexOf (values : Values) : LexBound :=
  (values.lexBound? "min").getD .least

def maxLexOf (values : Values) : LexBound :=
  (values.lexBound? "max").getD .greatest

def rangeOptionsOf (values : Values) : RangeOptions where
  withScores := values.given "withscores"
  offset := values.signed? "offset"
  count := values.signed? "count"

/-! ### The subcommands -/

/-- A subcommand that asks for an operation. -/
def make (name : String) (positionals : List Positional) (options : List NamedOption)
    (operation? : Values → Option Operation) : Subcommand where
  name := name
  grammar := { positionals, options := help :: options }
  request? values := (operation? values).map .call

def add : Subcommand where
  name := "zadd"
  grammar :=
    { positionals := [key, hyphened "score" .score, member,
        { name := "pairs", hyphens := true, repeated := true }]
      options := [help] }
  request? values := do
    return .add (← values.text? "key") (← values.score? "score") (← values.text? "member")
      (values.texts "pairs")

def card : Subcommand :=
  make "zcard" [key] [] fun values => do return .card (← keyOf values)

def countByScore : Subcommand :=
  make "zcount" [key, minScore, maxScore] [] fun values => do
    return .countByScore (← keyOf values) (minScoreOf values) (maxScoreOf values)

def increment : Subcommand :=
  make "zincrby" [key, hyphened "increment" .score, member] [] fun values => do
    return .increment (← keyOf values) (← values.score? "increment") (← memberOf values)

def countByLex : Subcommand :=
  make "zlexcount" [key, minLex, maxLex] [] fun values => do
    return .countByLex (← keyOf values) (minLexOf values) (maxLexOf values)

def range : Subcommand :=
  make "zrange" [key, start, stop] [withScores] fun values => do
    return .range .ascending (← keyOf values) ((values.signed? "start").getD 0)
      ((values.signed? "stop").getD (-1)) (values.given "withscores")

def rangeByLex : Subcommand :=
  make "zrangebylex" [key, minLex, maxLex] [offset, count] fun values => do
    return .rangeByLex (← keyOf values) (minLexOf values) (maxLexOf values)
      (values.signed? "offset") (values.signed? "count")

def rangeByScore : Subcommand :=
  make "zrangebyscore" [key, minScore, maxScore] [withScores, offset, count] fun values => do
    return .rangeByScore .ascending (← keyOf values) (minScoreOf values) (maxScoreOf values)
      (rangeOptionsOf values)

def rank : Subcommand :=
  make "zrank" [key, member] [] fun values => do
    return .rank .ascending (← keyOf values) (← memberOf values)

def remove : Subcommand :=
  make "zrem" [key, member, { name := "members", repeated := true }] [] fun values => do
    return .remove (← keyOf values) (← memberOf values)
      ((values.texts "members").map Utf8.encode)

def removeByLex : Subcommand :=
  make "zremrangebylex" [key, minLex, maxLex] [] fun values => do
    return .removeByLex (← keyOf values) (← values.lexBound? "min") (← values.lexBound? "max")

def removeByRank : Subcommand :=
  make "zremrangebyrank" [key, start, stop] [] fun values => do
    return .removeByRank (← keyOf values) (← values.signed? "start") (← values.signed? "stop")

def removeByScore : Subcommand :=
  make "zremrangebyscore" [key, minScore, maxScore] [] fun values => do
    return .removeByScore (← keyOf values) (minScoreOf values) (maxScoreOf values)

def revRange : Subcommand :=
  make "zrevrange" [key, start, stop] [withScores] fun values => do
    return .range .descending (← keyOf values) (← values.signed? "start")
      (← values.signed? "stop") (values.given "withscores")

def revRangeByScore : Subcommand :=
  make "zrevrangebyscore" [key, maxScore, minScore] [withScores, offset, count] fun values => do
    return .rangeByScore .descending (← keyOf values) (minScoreOf values) (maxScoreOf values)
      (rangeOptionsOf values)

def revRank : Subcommand :=
  make "zrevrank" [key, member] [] fun values => do
    return .rank .descending (← keyOf values) (← memberOf values)

def scoreOf : Subcommand :=
  make "zscore" [key, member] [] fun values => do
    return .scoreOf (← keyOf values) (← memberOf values)

def scan : Subcommand :=
  make "zscan" [key, { name := "cursor", type := .unsigned }] [pattern, count] fun values => do
    return .scan (← keyOf values) ((values.unsigned? "cursor").getD 0)
      ((values.text? "match").map Utf8.encode) (values.signed? "count")

def all : List Subcommand :=
  [add, card, countByScore, increment, countByLex, range, rangeByLex, rangeByScore, rank, remove,
    removeByLex, removeByRank, removeByScore, revRange, revRangeByScore, revRank, scoreOf, scan]

/-- Read the tokens after the name of a subcommand. -/
def read (subcommand : Subcommand) (tokens : List Bytes) : Except Refusal Request := do
  let values ← subcommand.grammar.read tokens
  match subcommand.request? values with
  | some request => return request
  | none => .error .missingArgument

end Subcommand
end SortedSetClient.CommandLine
