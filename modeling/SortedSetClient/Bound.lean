import SortedSetClient.Score

/-! The ends of ranges. By score an end is `N`, `(N` where it is left out, or an infinity. In
lexicographical order it is `[v`, `(v`, or a sign that leaves its side open. -/
namespace SortedSetClient

/-- One end of a range of scores. -/
structure ScoreBound where
  score : Score
  inclusive : Bool
deriving DecidableEq

namespace ScoreBound

def negInf : ScoreBound := ⟨.float (.infinity true), true⟩

def posInf : ScoreBound := ⟨.float (.infinity false), true⟩

/-- Whether the score itself belongs to the range; an infinity always does. -/
def isInclusive (bound : ScoreBound) : Bool :=
  bound.inclusive || bound.score.isInfinite

/-- Whether two bounds have the same score and flag. -/
def same (a b : ScoreBound) : Bool :=
  a.score.same b.score && a.inclusive == b.inclusive

/-- The bound as it is sent. An infinity has a sign and no mark. -/
def encode (bound : ScoreBound) : Bytes :=
  if bound.score.isInfinite then Utf8.encode (if bound.score.isNegative then "-inf" else "+inf")
  else if bound.inclusive then bound.score.encode
  else 0x28 :: bound.score.encode

/-- Split off the mark of an end that is left out. -/
def splitMark : Bytes → Bytes × Bool
  | 0x28 :: rest => (rest, false)
  | text => (text, true)

/-- Read a bound that may be sent. -/
def read (text : String) : Except Error ScoreBound :=
  let (number, inclusive) := splitMark (Utf8.encode text)
  match Score.ofText? number with
  | some score =>
    if score.isNaN then .error (.invalidArgument (.unreadableScoreBound text))
    else .ok ⟨score, inclusive⟩
  | none => .error (.invalidArgument (.unreadableScoreBound text))

end ScoreBound

/-- One end of a lexicographical range. -/
structure LexBound where
  value : Bytes
  inclusive : Bool
deriving DecidableEq

namespace LexBound

/-- The value that leaves a lower end open. -/
def openBelow : Bytes := [0x2d]

/-- The value that leaves an upper end open. -/
def openAbove : Bytes := [0x2b]

/-- The lower end of everything. -/
def least : LexBound := ⟨openBelow, true⟩

/-- The upper end of everything. -/
def greatest : LexBound := ⟨openAbove, true⟩

/-- The value behind its mark. -/
def marked (bound : LexBound) : Bytes :=
  (if bound.inclusive then 0x5b else 0x28) :: bound.value

/-- The bound as it is sent for a lower end. Only there does `-` leave the side open. -/
def encodeMin (bound : LexBound) : Bytes :=
  if bound.value = openBelow then bound.value else bound.marked

/-- The bound as it is sent for an upper end. Only there does `+` leave the side open. -/
def encodeMax (bound : LexBound) : Bytes :=
  if bound.value = openAbove then bound.value else bound.marked

/-- Read a bound; without a mark it is inclusive. -/
def ofText? : Bytes → Option LexBound
  | [] => none
  | [0x2d] => some least
  | [0x2b] => some greatest
  | 0x5b :: value => some ⟨value, true⟩
  | 0x28 :: value => some ⟨value, false⟩
  | value => some ⟨value, true⟩

/-- Read a bound from text. -/
def read (text : String) : Except Error LexBound :=
  match ofText? (Utf8.encode text) with
  | some bound => .ok bound
  | none => .error (.invalidArgument .emptyLexBound)

end LexBound
end SortedSetClient
