import SortedSetClient.Decimal

/-! Why received octets are no reply. -/
namespace SortedSetClient.Resp

/-- Arrays inside one another are read this deep. -/
def maxDepth : Nat := 64

inductive Fault where
  | unknownType (type : UInt8)
  | invalidInteger (text : Bytes)
  | invalidBulkLength (length : Int64)
  | missingTerminator
  | invalidArrayLength (length : Int64)
  | tooDeep
  | incompleteFrame
  | other (text : String)
deriving DecidableEq

private def hexOctet (b : UInt8) : String :=
  String.ofList [Nat.digitChar (b.toNat / 16), Nat.digitChar (b.toNat % 16)]

def Fault.message : Fault → String
  | unknownType type => "unknown reply type byte 0x" ++ hexOctet type
  | invalidInteger text => "invalid integer '" ++ Utf8.decodeLossy text ++ "'"
  | invalidBulkLength length => "invalid bulk length " ++ toString length.toInt
  | missingTerminator => "bulk string missing terminator"
  | invalidArrayLength length => "invalid array length " ++ toString length.toInt
  | tooDeep => "reply nested deeper than " ++ toString maxDepth ++ " arrays"
  | incompleteFrame => "incomplete reply frame"
  | other text => text

end SortedSetClient.Resp
