import SortedSetClient.Resp.Fault
import SortedSetClient.Resp.Inspect

/-! What can go wrong, by cause, and the message of each. Arguments are judged before anything is
sent, so a fault in them means that the server has seen nothing. Causes found elsewhere come as
ready-made text. -/
namespace SortedSetClient

/-- The place of a score among the arguments of an operation. -/
inductive ScoreRole where
  | score
  | allScores
  | increment
  | min
  | max
deriving DecidableEq

def ScoreRole.name : ScoreRole → String
  | score => "score"
  | allScores => "all scores"
  | increment => "increment"
  | min => "min"
  | max => "max"

/-- Why an argument is refused. -/
inductive ArgumentFault where
  | notANumber (role : ScoreRole)
  | halfLimit
  | unreadableScore (text : String)
  | unreadableScoreBound (text : String)
  | emptyLexBound
  | unpairedScore
  | other (text : String)
deriving DecidableEq

def ArgumentFault.message : ArgumentFault → String
  | notANumber role => role.name ++ " must be int or float, got NaN"
  | halfLimit => "offset and count must both be specified"
  | unreadableScore text => "'" ++ text ++ "' is not a valid score"
  | unreadableScoreBound text => "'" ++ text ++ "' is not a valid score bound"
  | emptyLexBound => "lex bound must not be empty"
  | unpairedScore => "length of pairs must be even number"
  | other text => text

/-- Why a range is refused. -/
inductive RangeFault where
  | minAboveMax
  | other (text : String)
deriving DecidableEq

def RangeFault.message : RangeFault → String
  | minAboveMax => "min could not be greater than max"
  | other text => text

/-- The shape that a reply or a part of it should have. -/
inductive ReplyShape where
  | textualScore
  | integer
  | member
  | array
  | numericCursor
deriving DecidableEq

def ReplyShape.name : ReplyShape → String
  | textualScore => "textual score"
  | integer => "integer"
  | member => "member"
  | array => "array"
  | numericCursor => "numeric cursor"

/-- Why a well-formed reply is no answer to its command. -/
inductive ReplyFault where
  | mismatch (expected : ReplyShape) (got : Resp.Value)
  | notANumber (text : Bytes)
  | pageLength (length : Nat)
  | other (text : String)

def ReplyFault.message : ReplyFault → String
  | mismatch expected got => "expected " ++ expected.name ++ ", got " ++ got.inspect
  | notANumber text => "'" ++ Utf8.decodeLossy text ++ "' is not a number"
  | pageLength length => "scan reply must have 2 elements, got " ++ toString length
  | other text => text

/-- Why an operation has no answer. -/
inductive Error where
  | invalidArgument (fault : ArgumentFault)
  | invalidRange (fault : RangeFault)
  | notImplemented (command : String)
  | unexpectedReply (fault : ReplyFault)
  | server (text : String)
  | protocol (fault : Resp.Fault)
  | connectionClosed
  | connectionBroken
  | io (text : String)

def Error.message : Error → String
  | invalidArgument fault => "invalid argument: " ++ fault.message
  | invalidRange fault => "invalid range: " ++ fault.message
  | notImplemented command => command ++ " is not implemented"
  | unexpectedReply fault => "unexpected reply: " ++ fault.message
  | server text => "server error: " ++ text
  | protocol fault => "protocol error: " ++ fault.message
  | connectionClosed => "connection closed by server"
  | connectionBroken => "connection is unusable after an interrupted exchange"
  | io text => "io error: " ++ text

end SortedSetClient
