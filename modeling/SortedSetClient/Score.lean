import SortedSetClient.Binary64.Text
import SortedSetClient.Error

/-! The score of a member: an integer where its text is one, a floating-point number otherwise.
Two integers are compared as integers, any other two scores as floating-point numbers. -/
namespace SortedSetClient

inductive Score where
  | integer (n : Int64)
  | float (x : Binary64)
deriving DecidableEq

namespace Score

/-- Read the text of a score, as an integer if it is one. -/
def ofText? (text : Bytes) : Option Score :=
  match Decimal.int64? text with
  | some n => some (integer n)
  | none => (Binary64.read? text).map float

/-- The score as a floating-point number, an integer rounded to the nearest. -/
def toBinary64 : Score → Binary64
  | integer n => Binary64.ofInt n.toInt
  | float x => x

def isNaN (score : Score) : Bool := score.toBinary64.isNaN

def isNegative (score : Score) : Bool := score.toBinary64.isNegative

def isInfinite : Score → Bool
  | integer _ => false
  | float x => x.isInfinite

/-- The order of two scores; none where one is no number. -/
def compare? : Score → Score → Option Ordering
  | integer a, integer b => some (compare a.toInt b.toInt)
  | a, b => a.toBinary64.compare? b.toBinary64

/-- Whether the order finds no difference: so with both zeros, and never with a NaN. -/
def same (a b : Score) : Bool := a.compare? b == some .eq

def lt (a b : Score) : Bool := a.compare? b == some .lt

def gt (a b : Score) : Bool := a.compare? b == some .gt

/-- The score as it is sent. -/
def encode : Score → Bytes
  | integer n => Decimal.ofInt64 n
  | float x => x.write

/-- The score as it is shown. -/
def text (score : Score) : String := Utf8.ofAscii score.encode

/-- Read a score that may be sent; what is no number may not. -/
def read (text : String) : Except Error Score :=
  match ofText? (Utf8.encode text) with
  | some score =>
    if score.isNaN then .error (.invalidArgument (.unreadableScore text)) else .ok score
  | none => .error (.invalidArgument (.unreadableScore text))

/-- Refuse a score that is no number. -/
def check (role : ScoreRole) (score : Score) : Except Error Unit :=
  if score.isNaN then .error (.invalidArgument (.notANumber role)) else .ok ()

end Score
end SortedSetClient
