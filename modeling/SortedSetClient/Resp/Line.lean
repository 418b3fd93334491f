import SortedSetClient.Resp.Fault

/-! Header lines: octets up to the first line end, and the integers written there. -/
namespace SortedSetClient.Resp

/-- Split at the first line end, behind the octets already passed. -/
def splitLineOnto (passed : Bytes) : Bytes → Option (Bytes × Bytes)
  | 0x0d :: 0x0a :: rest => some (passed.reverse, rest)
  | b :: rest => splitLineOnto (b :: passed) rest
  | [] => none

/-- The octets before and after the first line end; none where there is no line end. -/
def splitLine (bytes : Bytes) : Option (Bytes × Bytes) :=
  splitLineOnto [] bytes

/-- The integer that a line holds. -/
def readInteger (text : Bytes) : Except Fault Int64 :=
  match Decimal.int64? text with
  | some n => .ok n
  | none => .error (.invalidInteger text)

end SortedSetClient.Resp
